import SciTECO.Editing.SearchRubout

/-!
# Undo actions are balanced

Commands that delete record one action and push one `SCI_UNDO` token for it, or
neither of them.  The search commands do so unless nothing is deleted: then
some of them push a token although there is nothing to undo.
-/

namespace SciTECO
namespace Editing

open EStateM

namespace Editor

variable {s t u : Editor}

/-!
## Recorded changes
-/

theorem undoSsm_def (token : Token) (s : Editor) :
    s.undoSsm token =
      { s with
        tokens := if s.undoes then token :: s.tokens else s.tokens } := by
  cases hundo : s.undoes with
  | true => exact undoSsm_of_undoes hundo
  | false => exact undoSsm_of_not_undoes hundo

theorem undoSsm_keeps (h : Keeps s u) (token : Token) :
    u.undoSsm token =
      { u with
        tokens := if s.undoes then token :: u.tokens else u.tokens } := by
  rw [undoSsm_def, h.undoes]

/-- Whether a step has recorded an action and whether it has pushed an
`SCI_UNDO` token, if tokens are pushed at all. -/
structure Changes (s t : Editor) (acts undone : Bool) : Prop
    extends Keeps s t where
  recorded : t.recorded = s.recorded + acts.toNat
  undoCount : undoCount t.tokens =
    undoCount s.tokens + (if s.undoes then undone.toNat else 0)

theorem Changes.counted_iff {acts undone : Bool}
    (h : Changes s t acts undone) :
    Counted s t <-> (s.undoes = true -> acts = undone) := by
  unfold Counted
  rw [h.recorded, h.undoCount]
  cases s.undoes <;> cases acts <;> cases undone <;>
    simp [Nat.add_assoc, Nat.add_comm]

/-- A step which has recorded one change of the current document. -/
structure Edits (s t : Editor) : Prop extends Keeps s t where
  text : Document.SameText t.document.undo s.document
  others : forall view, view ≠ s.shown ->
    t.documents view = s.documents view

theorem Edits.near (h : Edits s t) : Near (t.runToken .undo) s := by
  refine ⟨h.shown, ?_, ?_⟩
  · change Document.SameText (t.ssm Document.undo).document s.document
    rw [ssm_document]
    exact h.text
  · intro view hview
    have hother : view ≠ t.shown := by
      rw [h.shown]
      exact hview
    change Document.Same ((t.ssm Document.undo).documents view) _
    rw [ssm_others _ hother, h.others view hview]

theorem Edits.rewinds (h : Edits s t)
    (htokens : s.undoes = true -> t.tokens = .undo :: s.tokens) :
    Rewinds s t := by
  intro hundo
  exact ⟨[.undo], Pushes.singleton (htokens hundo) trivial, h.near⟩

/-- The dot is restored as well if it is pushed before the action. -/
theorem Edits.restores (h : Edits s t)
    (htokens : s.undoes = true ->
      t.tokens = .undo :: .gotoPos s.document.dot :: s.tokens) :
    Restores s t := by
  intro hundo
  refine ⟨[.undo, .gotoPos s.document.dot], ⟨htokens hundo, ?_⟩, ?_⟩
  · intro token hmem
    rcases List.mem_cons.mp hmem with heq | hmem
    · rw [heq]
      trivial
    · rw [List.mem_singleton.mp hmem]
      trivial
  · exact setSel_alike h.near s.document.dot

/-!
## Deletions
-/

/-- The range is not empty and inside the current document. -/
def Deletable (s : Editor) (start len : Int) : Prop :=
  0 ≤ start ∧ 0 < len ∧ start + len ≤ s.document.text.length

instance (s : Editor) (start len : Int) :
    Decidable (Deletable s start len) := by
  unfold Deletable
  infer_instance

/-- The whole state after a deletion that is one undo action. -/
theorem undoAction_deleteRange (start len : Int) (s : Editor) :
    s.undoAction (Editor.deleteRange start len) =
      { s.ssm (Document.deleteRange start len) with
        recorded := s.recorded + (decide (Deletable s start len)).toNat
        deletions :=
          { start := start, len := len
            documentLength := s.document.text.length } :: s.deletions } := by
  have hdocument : (s.deleteRange start len).document =
      s.document.deleteRange start len :=
    ssm_document (Document.deleteRange start len) s
  unfold undoAction
  dsimp only
  rw [hdocument, Document.deleteRange_history]
  by_cases h : Deletable s start len
  · have hrange : 0 ≤ start ∧ 0 < len ∧
        start + len ≤ s.document.text.length := h
    rw [if_pos hrange, if_pos (Nat.lt_succ_self _), decide_eq_true h]
    rfl
  · have hrange : ¬ (0 ≤ start ∧ 0 < len ∧
        start + len ≤ s.document.text.length) := h
    rw [if_neg hrange, Nat.add_zero, if_neg (Nat.lt_irrefl _),
      decide_eq_false h]
    rfl

theorem deleteRange_edits {start len : Int} (h : Deletable s start len)
    (ht : t.documents = (s.ssm (Document.deleteRange start len)).documents)
    (hkeeps : Keeps s t) : Edits s t := by
  refine { hkeeps with text := ?_, others := ?_ }
  · have hdocument : t.document = s.document.deleteRange start len := by
      unfold Editor.document
      rw [ht, hkeeps.shown]
      exact ssm_document (Document.deleteRange start len) s
    rw [hdocument]
    exact Document.undo_deleteRange h
  · intro view hview
    rw [ht]
    exact ssm_others _ hview

/-- One deletion inside the document. -/
theorem DeletesInside.of_cons {deletion : Deletion}
    (h : t.deletions = deletion :: s.deletions) (hinside : deletion.Inside) :
    DeletesInside s t := by
  refine ⟨[deletion], h, ?_⟩
  intro other hmem
  rw [List.mem_singleton.mp hmem]
  exact hinside

theorem DeletesInside.inside {deletion : Deletion} (h : DeletesInside s t)
    (heq : t.deletions = deletion :: s.deletions) : deletion.Inside := by
  rcases h with ⟨new, hnew, hinside⟩
  rw [heq] at hnew
  cases new with
  | nil =>
      have hlength := congrArg List.length hnew
      simp at hlength
  | cons head rest =>
      have hhead := (List.cons.inj hnew).1
      rw [hhead]
      exact hinside head List.mem_cons_self

/-!
## Lines, characters and words
-/

theorem undoDeletion_def (pos : Nat) (s : Editor) :
    undoDeletion pos s =
      { s with
        tokens :=
          if s.undoes then .undo :: .gotoPos pos :: s.tokens
          else s.tokens } := by
  unfold undoDeletion
  rw [undoSsm_def _ s, undoSsm_def]
  change { s with
    tokens :=
      if s.undoes then
        .undo :: (if s.undoes then .gotoPos pos :: s.tokens else s.tokens)
      else if s.undoes then .gotoPos pos :: s.tokens else s.tokens } = _
  cases s.undoes <;> rfl

/-- The state after a deletion with the tokens for it, which may be pushed
before or after it. -/
def deleted (start len : Int) (s : Editor) : Editor :=
  { s.ssm (Document.deleteRange start len) with
    tokens :=
      if s.undoes then .undo :: .gotoPos s.document.dot :: s.tokens
      else s.tokens
    recorded := s.recorded + 1
    deletions :=
      { start := start, len := len
        documentLength := s.document.text.length } :: s.deletions }

theorem deleted_balanced {start len : Int} (h : Deletable s start len) :
    Balanced s (deleted start len s) := by
  have hkeeps : Keeps s (deleted start len s) := ⟨rfl, rfl, rfl⟩
  have hedits : Edits s (deleted start len s) :=
    deleteRange_edits h rfl hkeeps
  have hchanges : Changes s (deleted start len s) true true := by
    refine { hkeeps with recorded := rfl, undoCount := ?_ }
    change Editing.undoCount (if s.undoes then _ else _) = _
    cases hundo : s.undoes with
    | true =>
        rw [if_pos rfl, if_pos rfl]
        unfold Editing.undoCount
        rw [List.count_cons_self, List.count_cons_of_ne (by simp)]
        rfl
    | false => rfl
  refine ⟨hkeeps, hchanges.counted_iff.mpr (fun _ => rfl),
    DeletesInside.of_cons rfl ⟨h.1, Int.le_of_lt h.2.1, h.2.2⟩, ?_⟩
  apply hedits.restores
  intro hundo
  exact if_pos hundo

theorem deleteBetween_eq {start stop : Nat}
    (h : Deletable s start (stop - start : Int)) :
    deleteBetween s.document.dot start stop s =
      deleted start (stop - start : Int) s := by
  unfold deleteBetween
  rw [undoAction_deleteRange, undoDeletion_def, decide_eq_true h]
  rfl

theorem undoDeletion_eq {start len : Int} (h : Deletable s start len) :
    (undoDeletion s.document.dot s).undoAction
      (Editor.deleteRange start len) = deleted start len s := by
  rw [undoDeletion_def, undoAction_deleteRange]
  have hdeletable : Deletable
      { s with
        tokens :=
          if s.undoes then .undo :: .gotoPos s.document.dot :: s.tokens
          else s.tokens } start len := h
  rw [decide_eq_true hdeletable]
  rfl

end Editor

/-!
## The ranges of kill commands and of words
-/

theorem scanWord_suffix (isWord : UInt8 -> Bool) (first : Bool)
    (skipWord : Bool) (text : Bytes) :
    scanWord isWord first skipWord text <:+ text := by
  induction text generalizing skipWord with
  | nil => exact List.suffix_refl _
  | cons c rest ih =>
      unfold scanWord
      split
      · split
        · exact List.suffix_refl _
        · exact (ih _).trans (List.suffix_cons c rest)
      · exact (ih _).trans (List.suffix_cons c rest)

theorem scanWords_suffix (isWord : UInt8 -> Bool) (first : Bool) (n : Nat)
    (text : Bytes) : (scanWords isWord first n text).2 <:+ text := by
  induction n generalizing text with
  | zero => exact List.suffix_refl _
  | succ n ih =>
      have hword := scanWord_suffix isWord first first text
      unfold scanWords
      split
      · exact List.nil_suffix
      · next hrest => exact (ih _).trans hword

/-- Words forwards are behind the position, words backwards before it. -/
theorem findWords_le (wchars text : Bytes) {pos : Nat}
    (h : pos ≤ text.length) (n : TecoInt) (endOfWord : Bool) :
    (findWords wchars text pos n endOfWord).2 ≤ text.length ∧
      (0 < n.toInt -> pos ≤ (findWords wchars text pos n endOfWord).2) ∧
      (¬ 0 < n.toInt ->
        (findWords wchars text pos n endOfWord).2 ≤ pos) := by
  unfold findWords
  dsimp only
  split
  · omega
  · split
    · split
      · omega
      · have hsuffix := (scanWords_suffix (fun c => wchars.contains c)
          (!endOfWord) n.toInt.natAbs (text.drop pos)).length_le
        rw [List.length_drop] at hsuffix
        dsimp only
        omega
    · split
      · omega
      · have hsuffix := (scanWords_suffix (fun c => wchars.contains c)
          endOfWord n.toInt.natAbs (text.take pos).reverse).length_le
        rw [List.length_reverse, List.length_take] at hsuffix
        dsimp only
        omega

theorem wordRange_inside (wchars : Bytes) (d : Document) (v : TecoInt)
    (modifierAt : Bool) :
    (wordRange wchars d v modifierAt).2.1 ≤
        (wordRange wchars d v modifierAt).2.2 ∧
      (wordRange wchars d v modifierAt).2.2 ≤ d.text.length := by
  have hfound := findWords_le wchars d.text d.dot_le v modifierAt
  have hdot := d.dot_le
  unfold wordRange
  dsimp only
  split
  · next hpos => exact ⟨hfound.2.1 hpos, hfound.1⟩
  · next hpos => exact ⟨hfound.2.2 hpos, hdot⟩

theorem rangeTo_inside {dot size : Nat} {pos : Int} (hdot : dot ≤ size)
    (hpos : 0 ≤ pos ∧ pos ≤ size) :
    0 ≤ (rangeTo dot pos).1 ∧ 0 ≤ (rangeTo dot pos).2 ∧
      (rangeTo dot pos).1 + (rangeTo dot pos).2 ≤ size := by
  unfold rangeTo
  dsimp only
  split
  · dsimp only
    omega
  · dsimp only
    omega

section

variable {Re : Type} (sci : Scintilla) (regexps : Regexps Re)

theorem killTarget_inside {byLines : Bool} {n : TecoInt} {d : Document}
    (h : (killTarget sci byLines n d).2 = true) :
    0 ≤ (killTarget sci byLines n d).1 ∧
      (killTarget sci byLines n d).1 ≤ d.text.length := by
  cases byLines with
  | true =>
      rcases Bool.and_eq_true_iff.mp h with ⟨hlow, hhigh⟩
      exact sci.positionFromLine_inside d.text _ (of_decide_eq_true hlow)
        (of_decide_eq_true hhigh)
  | false =>
      exact ⟨of_decide_eq_true h, sci.glyphs2bytesRelative_le d d.dot_le n⟩

/-- A successful kill command has a range in the document. -/
theorem killRange_inside {byLines : Bool} {args : Arguments} {d : Document}
    (h : (killRange sci byLines args d).2.2 = true) :
    0 ≤ (killRange sci byLines args d).1 ∧
      0 ≤ (killRange sci byLines args d).2.1 ∧
        (killRange sci byLines args d).1 +
          (killRange sci byLines args d).2.1 ≤ d.text.length := by
  cases args with
  | one n => exact rangeTo_inside d.dot_le (killTarget_inside sci h)
  | two first second =>
      have hrange := of_decide_eq_true h
      have hstop := sci.glyphs2bytes_le d second
      change 0 ≤ sci.glyphs2bytes d first ∧
        0 ≤ sci.glyphs2bytes d second - sci.glyphs2bytes d first ∧
          sci.glyphs2bytes d first +
            (sci.glyphs2bytes d second - sci.glyphs2bytes d first) ≤ _
      omega

/-!
## Kill commands and deletions of words
-/

open Editor

theorem report_balanced (err : TecoError) (rc : Bool) (modifierColon : Nat)
    (s : Editor) : Reaches Balanced (report err rc modifierColon) s := by
  unfold report
  apply Reaches.ite
  · intro _
    have hquiet : Quiet s { s with results := tecoBool rc :: s.results } :=
      { Quiet.refl s with }
    apply Reaches.update
    exact hquiet.balanced (Restores.of_alike rfl
      ⟨rfl, fun _ => Document.Same.refl _⟩)
  · intro _
    apply Reaches.ite
    · intro _
      exact Reaches.pure ()
    · intro _
      exact Reaches.throw err

theorem startDeleteWords_balanced (wchars : Bytes) (cmd : String)
    (factor v : TecoInt) (modifierAt : Bool) (modifierColon : Nat)
    (s : Editor) :
    Reaches Balanced
      (startDeleteWords wchars cmd factor v modifierAt modifierColon) s := by
  have hrange := wordRange_inside wchars s.document (v * factor) modifierAt
  apply Reaches.getThen
  apply Reaches.bind
  · apply Reaches.update
    split
    · next hfound =>
        have hdeletable : Deletable s
            (wordRange wchars s.document (v * factor) modifierAt).2.1
            ((wordRange wchars s.document (v * factor) modifierAt).2.2 -
              (wordRange wchars s.document (v * factor) modifierAt).2.1 :
                Int) := by
          refine ⟨?_, ?_, ?_⟩ <;> omega
        rw [deleteBetween_eq hdeletable]
        exact deleted_balanced hdeletable
    · exact Balanced.refl s
  · intro _ t _
    exact report_balanced _ _ modifierColon t

theorem startKill_balanced (cmd : String) (byLines : Bool)
    (args : Arguments) (modifierColon : Nat) (s : Editor) :
    Reaches Balanced (startKill sci cmd byLines args modifierColon) s := by
  apply Reaches.getThen
  apply Reaches.bind (report_balanced _ _ modifierColon s)
  intro _ t ht
  have hdocument : t.document = s.document := by
    unfold report at ht
    split at ht
    · cases ht
      rfl
    · split at ht
      · cases ht
        rfl
      · cases ht
  apply Reaches.update
  split
  · exact Balanced.refl t
  · next hskip =>
      have hvalid : (killRange sci byLines args s.document).2.2 = true := by
        by_contra hinvalid
        exact hskip (Or.inr hinvalid)
      have hne : (killRange sci byLines args s.document).2.1 ≠ 0 :=
        fun hzero => hskip (Or.inl hzero)
      have hinside := killRange_inside sci hvalid
      have hdeletable : Deletable t
          (killRange sci byLines args s.document).1
          (killRange sci byLines args s.document).2.1 := by
        unfold Deletable
        rw [hdocument]
        omega
      rw [undoDeletion_eq hdeletable]
      exact deleted_balanced hdeletable

end

end Editing
end SciTECO
