import SciTECO.Editing.Balance
import SciTECO.Expressions.Rules
import SciTECO.Spawn.Execute

/-!
# Range arguments

A range is given by a number of lines, possibly only by its sign, or by two
positions in glyphs.  The kill commands, `teco_get_range_args()` and EC find
the range of the document on their own.
-/

namespace SciTECO
namespace Spawn

open Undoable
open Editing (Arguments Document killRange)

/-!
## The implementations
-/

/-- The numbers which `teco_state_start_kill()` pops, and the range it finds
with its success. -/
def startKillArgs (sci : Editing.Scintilla) (byLines : Bool) (d : Document) :
    Exec Expressions (Int × Int × Bool) := do
  Expressions.eval false
  let s <- get
  if s.args ≤ 1 then
    let n <- Expressions.popNumCalc (BitVec.ofInt 64 s.numSign)
    pure (killRange sci byLines (.one n) d)
  else
    let second <- Expressions.popNum 0
    let first <- Expressions.popNum 0
    pure (killRange sci byLines (.two first second) d)

/-- `teco_get_range_args()`: the position and the length in bytes. -/
def getRangeArgs (sci : Editing.Scintilla) (cmd : String) (d : Document) :
    Exec Expressions (Int × Int) := do
  Expressions.eval false
  let s <- get
  if s.args ≤ 1 then
    let count <- Expressions.popNumCalc (BitVec.ofInt 64 s.numSign)
    let line := count + BitVec.ofNat 64 (sci.lineFromPosition d.text d.dot)
    if sci.validateLine d line then
      let len := sci.positionFromLine d.text line.toInt - d.dot
      if len < 0 then pure (d.dot + len, -len) else pure (d.dot, len)
    else
      throw (Editing.rangeError cmd)
  else
    let last <- Expressions.popNum 0
    let first <- Expressions.popNum 0
    let toPos := sci.glyphs2bytes d last
    let fromPos := sci.glyphs2bytes d first
    let len := toPos - fromPos
    if len < 0 ∨ fromPos < 0 ∨ toPos < 0 then
      throw (Editing.rangeError cmd)
    else
      pure (fromPos, len)

/-- The messages as EC sends them, to documents with or without an index of
characters. -/
def ofEditing (sci : Editing.Scintilla) (characterIndex : Bool) :
    Scintilla where
  lineFromPosition text pos := sci.lineFromPosition text pos.toNat
  positionFromLine := sci.positionFromLine
  lineCount text := sci.lineCount text
  glyphs2bytes text pos :=
    sci.glyphs2bytes (Document.create text characterIndex)
      (BitVec.ofInt 64 pos)
  positionFromLine_nonneg := by
    intro text line hline hcount
    exact (sci.positionFromLine_inside text line hline hcount).1

/-- The editor has a document as its current one. -/
structure Editor.Shows {ρ : Type} (s : Editor ρ) (d : Document) : Prop where
  text : s.text = d.text
  dot : s.dot = d.dot

/-- An argument is given, or a minus in its place. -/
def Given (e : Expressions) : Prop :=
  forall t, result (Expressions.eval false) e = .ok ((), t) ->
    0 < t.args ∨ t.numSign ≤ 0

/-- The commands find the same range, or none of them accepts the arguments.
EC has a meaning of its own for no argument at all. -/
inductive SameRange {ρ : Type} (sci : Editing.Scintilla) (cmd : String)
    (d : Document) (s : Editor ρ) : Prop where
  | stops (x : Stop TecoError Fault)
      (hkill : result (startKillArgs sci true d) s.expressions = .error x)
      (hrange : result (getRangeArgs sci cmd d) s.expressions = .error x)
      (hexecute : Given s.expressions ->
        result (Editor.executeArgs (ofEditing sci d.characterIndex)) s =
          .error x)
  | selects (first last : Nat) (t : Expressions) (hle : first ≤ last)
      (hlast : last ≤ d.text.length)
      (hkill : result (startKillArgs sci true d) s.expressions =
        .ok ((first, (last - first : Int), true), t))
      (hrange : result (getRangeArgs sci cmd d) s.expressions =
        .ok ((first, (last - first : Int)), t))
      (hexecute : Given s.expressions ->
        result (Editor.executeArgs (ofEditing sci d.characterIndex)) s =
          .ok (true, { s with
            expressions := t, fromPos := first, toPos := last }))
  | rejects (t : Expressions)
      (hkill : exists first len,
        result (startKillArgs sci true d) s.expressions =
          .ok ((first, len, false), t))
      (hrange : result (getRangeArgs sci cmd d) s.expressions =
        .error (.error (Editing.rangeError cmd)))
      (hexecute : Given s.expressions -> exists fromPos toPos,
        result (Editor.executeArgs (ofEditing sci d.characterIndex)) s =
          .ok (false, { s with
            expressions := t, fromPos := fromPos, toPos := toPos }))

/-!
## Lines
-/

section

variable {ρ : Type} {sci : Editing.Scintilla} {d : Document} {s : Editor ρ}
variable {e t u : Expressions}

theorem bind_of_error {α β σ : Type} {m : Exec σ α} {f : α -> Exec σ β}
    {w : σ} {x : Stop TecoError Fault} (h : result m w = .error x) :
    result (m >>= f) w = .error x := by
  rw [result_bind, h]
  rfl

theorem zoom_of_error {α : Type} {m : Exec Expressions α} {w : Editor ρ}
    {x : Stop TecoError Fault} (h : result m w.expressions = .error x) :
    result (zoom Editor.expressionsPart m) w = .error x := by
  rw [result_zoom]
  change (result m w.expressions).map _ = _
  rw [h]
  rfl

theorem zoom_of_ok {α : Type} {m : Exec Expressions α} {w : Editor ρ} {a : α}
    (h : result m w.expressions = .ok (a, u)) :
    result (zoom Editor.expressionsPart m) w =
      .ok (a, { w with expressions := u }) := by
  rw [result_zoom]
  change (result m w.expressions).map _ = _
  rw [h]
  rfl

/-- EC goes on with a number of lines. -/
theorem executeArgs_lines {sci : Scintilla}
    (heval : result (Expressions.eval false) s.expressions = .ok ((), t))
    (hgiven : Given s.expressions) (hargs : t.args ≤ 1) :
    result (Editor.executeArgs sci) s =
      result (Editor.executeLines sci) { s with expressions := t } := by
  unfold Editor.executeArgs
  rw [result_bind_of_ok (zoom_of_ok heval), result_bind_of_ok (result_get _)]
  rcases hgiven t heval with hsome | hsign
  · have hne : ¬ t.args = 0 := Nat.pos_iff_ne_zero.mp hsome
    have hone : t.args = 1 := Nat.le_antisymm hargs hsome
    rw [if_neg hne, if_pos hone]
  · split
    · rw [if_neg (Int.not_lt.mpr hsign)]
    · next hne =>
        have hone : t.args = 1 :=
          Nat.le_antisymm hargs (Nat.pos_of_ne_zero hne)
        rw [if_pos hone]

theorem executeArgs_range {sci : Scintilla}
    (heval : result (Expressions.eval false) s.expressions = .ok ((), t))
    (hargs : ¬ t.args ≤ 1) :
    result (Editor.executeArgs sci) s =
      result (Editor.executeRange sci) { s with expressions := t } := by
  have hnone : ¬ t.args = 0 := by omega
  have hone : ¬ t.args = 1 := by omega
  unfold Editor.executeArgs
  rw [result_bind_of_ok (zoom_of_ok heval), result_bind_of_ok (result_get _),
    if_neg hnone, if_neg hone]

/-- The line at the end of the range. -/
def lineOf (sci : Editing.Scintilla) (d : Document) (count : TecoInt) :
    TecoInt :=
  count + BitVec.ofNat 64 (sci.lineFromPosition d.text d.dot)

/-- The position of the line that the arguments name. -/
def lineStart (sci : Editing.Scintilla) (d : Document) (count : TecoInt) :
    Int :=
  sci.positionFromLine d.text (lineOf sci d count).toInt

theorem executeLines_ok {count : TecoInt} (hshows : s.Shows d)
    (hpop : result (Expressions.popNumCalc (BitVec.ofInt 64 t.numSign)) t =
      .ok (count, u)) :
    result (Editor.executeLines (ofEditing sci d.characterIndex))
        { s with expressions := t } =
      .ok (sci.validateLine d (lineOf sci d count),
        if lineStart sci d count < d.dot then
          { s with
            expressions := u
            fromPos := lineStart sci d count
            toPos := d.dot }
        else
          { s with
            expressions := u
            fromPos := d.dot
            toPos := lineStart sci d count }) := by
  have hzoom : result (zoom Editor.expressionsPart
      (Expressions.popNumCalc (BitVec.ofInt 64 t.numSign)))
        { s with expressions := t, fromPos := s.dot } =
      .ok (count, { s with expressions := u, fromPos := s.dot }) :=
    zoom_of_ok hpop
  unfold Editor.executeLines
  rw [result_bind_of_ok (result_modify _ _), result_bind_of_ok (result_get _),
    result_bind_of_ok hzoom, result_bind_of_ok (result_modify _ _),
    result_bind_of_ok (result_modify _ _), result_pure]
  dsimp only
  rw [hshows.text, hshows.dot]
  have hvalid : (ofEditing sci d.characterIndex).validateLine d.text
      (lineOf sci d count).toInt = sci.validateLine d (lineOf sci d count) := by
    unfold Scintilla.validateLine Editing.Scintilla.validateLine
    exact Bool.decide_and _ _
  have hline : count + BitVec.ofInt 64
      ((ofEditing sci d.characterIndex).lineFromPosition d.text d.dot) =
        lineOf sci d count := by
    unfold lineOf
    rw [<- BitVec.ofInt_natCast]
    rfl
  rw [hline, hvalid]
  rfl

theorem executeRange_ok {first last : TecoInt} {v : Expressions}
    (hshows : s.Shows d)
    (hlast : result (Expressions.popNum 0) t = .ok (last, u))
    (hfirst : result (Expressions.popNum 0) u = .ok (first, v)) :
    result (Editor.executeRange (ofEditing sci d.characterIndex))
        { s with expressions := t } =
      .ok (decide (sci.glyphs2bytes d first ≤ sci.glyphs2bytes d last ∧
          sci.glyphs2bytes d first ≥ 0 ∧ sci.glyphs2bytes d last ≥ 0),
        { s with
          expressions := v
          fromPos := sci.glyphs2bytes d first
          toPos := sci.glyphs2bytes d last }) := by
  have hzoom : result (zoom Editor.expressionsPart (Expressions.popNum 0))
      { s with expressions := t } =
        .ok (last, { s with expressions := u }) :=
    zoom_of_ok hlast
  have hzoom' : result (zoom Editor.expressionsPart (Expressions.popNum 0))
      { s with expressions := u } =
        .ok (first, { s with expressions := v }) :=
    zoom_of_ok hfirst
  have hglyphs (n : TecoInt) :
      (ofEditing sci d.characterIndex).glyphs2bytes d.text n.toInt =
        sci.glyphs2bytes d n := by
    change sci.glyphs2bytes (Document.create d.text d.characterIndex)
      (BitVec.ofInt 64 n.toInt) = _
    rw [BitVec.ofInt_toInt]
    rfl
  unfold Editor.executeRange
  rw [result_bind_of_ok (result_get _), result_bind_of_ok hzoom,
    result_bind_of_ok hzoom', result_bind_of_ok (result_modify _ _),
    result_pure]
  dsimp only
  rw [hshows.text, hglyphs, hglyphs]

theorem startKillArgs_lines {count : TecoInt}
    (heval : result (Expressions.eval false) e = .ok ((), t))
    (hargs : t.args ≤ 1)
    (hpop : result (Expressions.popNumCalc (BitVec.ofInt 64 t.numSign)) t =
      .ok (count, u)) :
    result (startKillArgs sci true d) e =
      .ok (((Editing.rangeTo d.dot (lineStart sci d count)).1,
        (Editing.rangeTo d.dot (lineStart sci d count)).2,
        sci.validateLine d (lineOf sci d count)), u) := by
  unfold startKillArgs
  rw [result_bind_of_ok heval, result_bind_of_ok (result_get t), if_pos hargs,
    result_bind_of_ok hpop]
  rfl

theorem getRangeArgs_lines (cmd : String) {count : TecoInt}
    (heval : result (Expressions.eval false) e = .ok ((), t))
    (hargs : t.args ≤ 1)
    (hpop : result (Expressions.popNumCalc (BitVec.ofInt 64 t.numSign)) t =
      .ok (count, u)) :
    result (getRangeArgs sci cmd d) e =
      if sci.validateLine d (lineOf sci d count) then
        .ok (Editing.rangeTo d.dot (lineStart sci d count), u)
      else .error (.error (Editing.rangeError cmd)) := by
  unfold getRangeArgs
  rw [result_bind_of_ok heval, result_bind_of_ok (result_get t), if_pos hargs,
    result_bind_of_ok hpop]
  change result (if sci.validateLine d (lineOf sci d count) = true then
    if lineStart sci d count - d.dot < 0 then _ else _ else _) u = _
  unfold Editing.rangeTo
  dsimp only
  split
  · split
    · rfl
    · rfl
  · rfl

/-- The commands find the same range for a number of lines. -/
theorem sameRange_lines (cmd : String) {count : TecoInt}
    (hshows : s.Shows d)
    (heval : result (Expressions.eval false) s.expressions = .ok ((), t))
    (hargs : t.args ≤ 1)
    (hpop : result (Expressions.popNumCalc (BitVec.ofInt 64 t.numSign)) t =
      .ok (count, u)) :
    SameRange sci cmd d s := by
  have hkill := @startKillArgs_lines sci d _ t u count heval hargs hpop
  have hrange := @getRangeArgs_lines sci d _ t u cmd count heval hargs hpop
  have hexecute (hgiven : Given s.expressions) :=
    (executeArgs_lines heval hgiven hargs).trans
      (@executeLines_ok ρ sci d s t u count hshows hpop)
  cases hvalid : sci.validateLine d (lineOf sci d count) with
  | false =>
      rw [hvalid] at hkill hrange
      refine .rejects u ⟨_, _, hkill⟩ hrange ?_
      intro hgiven
      have hexecute := hexecute hgiven
      rw [hvalid] at hexecute
      split at hexecute
      · exact ⟨_, _, hexecute⟩
      · exact ⟨_, _, hexecute⟩
  | true =>
      have hline : 0 ≤ (lineOf sci d count).toInt ∧
          (lineOf sci d count).toInt < sci.lineCount d.text := by
        rw [Editing.Scintilla.validateLine, Bool.and_eq_true,
          decide_eq_true_eq, decide_eq_true_eq] at hvalid
        exact hvalid
      have hinside :=
        sci.positionFromLine_inside d.text _ hline.1 hline.2
      change 0 ≤ lineStart sci d count ∧
        lineStart sci d count ≤ d.text.length at hinside
      rw [hvalid] at hkill hrange
      rw [if_pos rfl] at hrange
      by_cases hbefore : lineStart sci d count < d.dot
      · have hstart : ((lineStart sci d count).toNat : Int) =
            lineStart sci d count := Int.toNat_of_nonneg hinside.1
        have hrangeTo : Editing.rangeTo d.dot (lineStart sci d count) =
            (((lineStart sci d count).toNat : Int),
              (d.dot - (lineStart sci d count).toNat : Int)) := by
          unfold Editing.rangeTo
          dsimp only
          rw [if_pos (by omega), hstart]
          congr 1 <;> omega
        rw [hrangeTo] at hkill hrange
        refine .selects _ d.dot u (by omega) d.dot_le hkill hrange ?_
        intro hgiven
        rw [hexecute hgiven, hvalid, if_pos hbefore, hstart]
      · have hstart : ((lineStart sci d count).toNat : Int) =
            lineStart sci d count := Int.toNat_of_nonneg hinside.1
        have hrangeTo : Editing.rangeTo d.dot (lineStart sci d count) =
            ((d.dot : Int),
              ((lineStart sci d count).toNat - d.dot : Int)) := by
          unfold Editing.rangeTo
          dsimp only
          rw [if_neg (by omega), hstart]
        rw [hrangeTo] at hkill hrange
        refine .selects d.dot _ u (by omega) (by omega) hkill hrange ?_
        intro hgiven
        rw [hexecute hgiven, hvalid, if_neg hbefore, hstart]

/-- The commands find the same range between two positions. -/
theorem sameRange_positions (cmd : String) {first last : TecoInt}
    {v : Expressions} (hshows : s.Shows d)
    (heval : result (Expressions.eval false) s.expressions = .ok ((), t))
    (hargs : ¬ t.args ≤ 1)
    (hlast : result (Expressions.popNum 0) t = .ok (last, u))
    (hfirst : result (Expressions.popNum 0) u = .ok (first, v)) :
    SameRange sci cmd d s := by
  have hkill : result (startKillArgs sci true d) s.expressions =
      .ok (killRange sci true (.two first last) d, v) := by
    unfold startKillArgs
    rw [result_bind_of_ok heval, result_bind_of_ok (result_get t),
      if_neg hargs, result_bind_of_ok hlast, result_bind_of_ok hfirst]
    rfl
  have hrange : result (getRangeArgs sci cmd d) s.expressions =
      result (if sci.glyphs2bytes d last - sci.glyphs2bytes d first < 0 ∨
          sci.glyphs2bytes d first < 0 ∨ sci.glyphs2bytes d last < 0 then
        throw (Editing.rangeError cmd)
      else pure (sci.glyphs2bytes d first,
        sci.glyphs2bytes d last - sci.glyphs2bytes d first)) v := by
    unfold getRangeArgs
    rw [result_bind_of_ok heval, result_bind_of_ok (result_get t),
      if_neg hargs, result_bind_of_ok hlast, result_bind_of_ok hfirst]
  have hexecute := (executeArgs_range heval hargs).trans
    (@executeRange_ok ρ sci d s t u first last v hshows hlast hfirst)
  by_cases hvalid : sci.glyphs2bytes d first ≤ sci.glyphs2bytes d last ∧
      0 ≤ sci.glyphs2bytes d first
  · rcases hvalid with ⟨hle, hnonneg⟩
    have hnonneg' : 0 ≤ sci.glyphs2bytes d last := Int.le_trans hnonneg hle
    have hend := sci.glyphs2bytes_le d last
    have hstart := Int.toNat_of_nonneg hnonneg
    have hstop := Int.toNat_of_nonneg hnonneg'
    have hkilled : killRange sci true (.two first last) d =
        (sci.glyphs2bytes d first,
          sci.glyphs2bytes d last - sci.glyphs2bytes d first, true) := by
      unfold killRange
      dsimp only
      rw [decide_eq_true ⟨Int.sub_nonneg_of_le hle, hnonneg, hnonneg'⟩]
    rw [hkilled] at hkill
    rw [if_neg (by omega), result_pure] at hrange
    rw [decide_eq_true ⟨hle, hnonneg, hnonneg'⟩] at hexecute
    refine .selects (sci.glyphs2bytes d first).toNat
      (sci.glyphs2bytes d last).toNat v (by omega) (by omega) ?_ ?_ ?_
    · rw [hkill, hstart, hstop]
    · rw [hrange, hstart, hstop]
    · intro _
      rw [hexecute, hstart, hstop]
  · have hkilled : killRange sci true (.two first last) d =
        (sci.glyphs2bytes d first,
          sci.glyphs2bytes d last - sci.glyphs2bytes d first, false) := by
      unfold killRange
      dsimp only
      rw [decide_eq_false (by omega)]
    rw [hkilled] at hkill
    rw [if_pos (by omega), result_throw] at hrange
    rw [decide_eq_false (by omega)] at hexecute
    exact .rejects v ⟨_, _, hkill⟩ hrange (fun _ => ⟨_, _, hexecute⟩)

/-- K, the commands with `teco_get_range_args()` and EC find the same range of
the document, or none of them accepts the arguments. -/
theorem sameRange (sci : Editing.Scintilla) (cmd : String) {d : Document}
    {s : Editor ρ} (h : s.Shows d) : SameRange sci cmd d s := by
  cases heval : result (Expressions.eval false) s.expressions with
  | error x =>
      have hexecute : result (Editor.executeArgs
          (ofEditing sci d.characterIndex)) s = .error x :=
        bind_of_error (zoom_of_error heval)
      exact .stops x (bind_of_error heval) (bind_of_error heval)
        (fun _ => hexecute)
  | ok p =>
      rcases p with ⟨_, t⟩
      by_cases hargs : t.args ≤ 1
      · cases hpop : result
          (Expressions.popNumCalc (BitVec.ofInt 64 t.numSign)) t with
        | ok p => exact sameRange_lines cmd h heval hargs hpop
        | error x =>
            refine .stops x ?_ ?_ ?_
            · unfold startKillArgs
              rw [result_bind_of_ok heval, result_bind_of_ok (result_get t),
                if_pos hargs]
              exact bind_of_error hpop
            · unfold getRangeArgs
              rw [result_bind_of_ok heval, result_bind_of_ok (result_get t),
                if_pos hargs]
              exact bind_of_error hpop
            · intro hgiven
              rw [executeArgs_lines heval hgiven hargs]
              unfold Editor.executeLines
              rw [result_bind_of_ok (result_modify _ _),
                result_bind_of_ok (result_get _)]
              exact bind_of_error (zoom_of_error hpop)
      · cases hlast : result (Expressions.popNum 0) t with
        | error x =>
            refine .stops x ?_ ?_ ?_
            · unfold startKillArgs
              rw [result_bind_of_ok heval, result_bind_of_ok (result_get t),
                if_neg hargs]
              exact bind_of_error hlast
            · unfold getRangeArgs
              rw [result_bind_of_ok heval, result_bind_of_ok (result_get t),
                if_neg hargs]
              exact bind_of_error hlast
            · intro _
              rw [executeArgs_range heval hargs]
              unfold Editor.executeRange
              rw [result_bind_of_ok (result_get _)]
              exact bind_of_error (zoom_of_error hlast)
        | ok p =>
            rcases p with ⟨last, u⟩
            cases hfirst : result (Expressions.popNum 0) u with
            | ok p => exact sameRange_positions cmd h heval hargs hlast hfirst
            | error x =>
                refine .stops x ?_ ?_ ?_
                · unfold startKillArgs
                  rw [result_bind_of_ok heval,
                    result_bind_of_ok (result_get t), if_neg hargs,
                    result_bind_of_ok hlast]
                  exact bind_of_error hfirst
                · unfold getRangeArgs
                  rw [result_bind_of_ok heval,
                    result_bind_of_ok (result_get t), if_neg hargs,
                    result_bind_of_ok hlast]
                  exact bind_of_error hfirst
                · intro _
                  rw [executeArgs_range heval hargs]
                  unfold Editor.executeRange
                  rw [result_bind_of_ok (result_get _),
                    result_bind_of_ok (zoom_of_ok hlast)]
                  exact bind_of_error (zoom_of_error hfirst)

/-- The document that `sameRange` is applied to below. -/
def oneOfTwo : Document :=
  (Document.create (utf8 "ab") false).gotoPos 1

/-- The range of `0K` and `0X` in it. -/
theorem sameRange_beginning :
    SameRange Editing.singleLine "X" oneOfTwo
      ({ expressions := Expressions.initial.pushed 0, modifierColon := 0
         text := oneOfTwo.text, dot := oneOfTwo.dot
         registers := fun _ => { cell := [], integer := 0, eolMode := .lf }
         registerArgument := none, fromPos := 0, toPos := 0 } :
        Editor Bytes) :=
  sameRange Editing.singleLine "X" ⟨rfl, rfl⟩

end

end Spawn
end SciTECO
