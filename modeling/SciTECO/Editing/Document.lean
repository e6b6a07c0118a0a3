import SciTECO.Expressions.Stacks
import SciTECO.Strings

/-!
# Documents

A Scintilla document as the commands see it: a text of bytes, a selection and
an undo history.  The dot is the caret of the selection.  The functions on
documents are the messages which the commands send.
-/

namespace SciTECO
namespace Editing

/-!
## The undo history
-/

/-- A group of changes in the undo history.  Undoing it brings back the text
and leaves the caret at a place in it. -/
structure Action where
  text : Bytes
  caret : Nat
  caret_le : caret ≤ text.length
deriving DecidableEq

/-- A document with the latest action at the head of its history. -/
structure Document where
  text : Bytes
  anchor : Nat
  dot : Nat
  history : List Action
  /-- `SC_LINECHARACTERINDEX_UTF32` is set in `SCI_GETLINECHARACTERINDEX`. -/
  characterIndex : Bool
  anchor_le : anchor ≤ text.length
  dot_le : dot ≤ text.length
deriving DecidableEq

namespace Document

variable {d e : Document}

/-- A document without a history. -/
def create (text : Bytes) (characterIndex : Bool) : Document :=
  { text := text, anchor := 0, dot := 0, history := []
    characterIndex := characterIndex
    anchor_le := Nat.zero_le _, dot_le := Nat.zero_le _ }

/-!
## Selections

Positions behind the end of the text are moved to its end.
-/

/-- `SCI_SETSEL`. -/
def setSel (anchor dot : Nat) (d : Document) : Document :=
  { d with
    anchor := min anchor d.text.length, dot := min dot d.text.length
    anchor_le := Nat.min_le_right _ _, dot_le := Nat.min_le_right _ _ }

/-- `SCI_GOTOPOS`. -/
def gotoPos (pos : Nat) (d : Document) : Document := d.setSel pos pos

/-- `SCI_SETANCHOR`. -/
def setAnchor (anchor : Nat) (d : Document) : Document :=
  d.setSel anchor d.dot

/-!
## Changes of the text
-/

/-- Where a position is after a range has been deleted. -/
def afterDeletion (start stop pos : Nat) : Nat :=
  if pos ≤ start then pos
  else if pos ≤ stop then start
  else pos - (stop - start)

theorem afterDeletion_le {start stop pos size : Nat} (h : start ≤ stop)
    (hstop : stop ≤ size) (hpos : pos ≤ size) :
    afterDeletion start stop pos ≤ size - (stop - start) := by
  unfold afterDeletion
  split
  · omega
  · split <;> omega

/-- The text without a range. -/
def without (start stop : Nat) (text : Bytes) : Bytes :=
  text.take start ++ text.drop stop

theorem length_without {start stop : Nat} {text : Bytes} (h : start ≤ stop)
    (hstop : stop ≤ text.length) :
    (without start stop text).length = text.length - (stop - start) := by
  simp only [without, List.length_append, List.length_take, List.length_drop]
  omega

/-- Delete a range which is not empty and record it. -/
def delete (start stop : Nat) (h : start < stop ∧ stop ≤ d.text.length) :
    Document :=
  { d with
    text := without start stop d.text
    anchor := afterDeletion start stop d.anchor
    dot := afterDeletion start stop d.dot
    history := { text := d.text, caret := stop, caret_le := h.2 } :: d.history
    anchor_le := by
      rw [length_without (Nat.le_of_lt h.1) h.2]
      exact afterDeletion_le (Nat.le_of_lt h.1) h.2 d.anchor_le
    dot_le := by
      rw [length_without (Nat.le_of_lt h.1) h.2]
      exact afterDeletion_le (Nat.le_of_lt h.1) h.2 d.dot_le }

/-- `SCI_DELETERANGE`, which does nothing unless the range is inside the
document. -/
def deleteRange (start len : Int) (d : Document) : Document :=
  if h : 0 ≤ start ∧ 0 < len ∧ start + len ≤ d.text.length then
    delete (d := d) start.toNat (start + len).toNat (by omega)
  else d

/-- Insert a string at a position and record it. -/
def insert (pos : Nat) (str : Bytes) (h : pos ≤ d.text.length) : Document :=
  { d with
    text := d.text.take pos ++ str ++ d.text.drop pos
    history := { text := d.text, caret := pos, caret_le := h } :: d.history
    anchor_le := by
      have := d.anchor_le
      simp only [List.length_append, List.length_take, List.length_drop]
      omega
    dot_le := by
      have := d.dot_le
      simp only [List.length_append, List.length_take, List.length_drop]
      omega }

/-- `SCI_ADDTEXT`. -/
def addText (str : Bytes) (d : Document) : Document :=
  if str = [] then d
  else (insert (d := d) d.dot str d.dot_le).gotoPos (d.dot + str.length)

/-- `SCI_APPENDTEXT`, which keeps the selection. -/
def appendText (str : Bytes) (d : Document) : Document :=
  if str = [] then d
  else insert (d := d) d.text.length str (Nat.le_refl _)

/-- `SCI_UNDO`. -/
def undo (d : Document) : Document :=
  match d.history with
  | [] => d
  | action :: rest =>
      { d with
        text := action.text, anchor := action.caret, dot := action.caret
        history := rest
        anchor_le := action.caret_le, dot_le := action.caret_le }

/-!
## Documents up to their selections

Documents are compared up to their selections or up to their anchors.
-/

/-- Two documents have the same text and the same history. -/
structure SameText (d e : Document) : Prop where
  text : d.text = e.text
  history : d.history = e.history

namespace SameText

@[refl] theorem refl (d : Document) : SameText d d := ⟨rfl, rfl⟩

theorem trans {f : Document} (h : SameText d e) (h' : SameText e f) :
    SameText d f :=
  ⟨h.text.trans h'.text, h.history.trans h'.history⟩

theorem undo (h : SameText d e) : SameText d.undo e.undo := by
  unfold Document.undo
  rw [h.history]
  cases e.history with
  | nil => exact h
  | cons action rest => exact ⟨rfl, rfl⟩

end SameText

/-- Two documents have the same text, the same dot and the same history. -/
structure Same (d e : Document) : Prop extends SameText d e where
  dot : d.dot = e.dot

namespace Same

@[refl] theorem refl (d : Document) : Same d d :=
  ⟨SameText.refl d, rfl⟩

theorem trans {f : Document} (h : Same d e) (h' : Same e f) : Same d f :=
  ⟨h.toSameText.trans h'.toSameText, h.dot.trans h'.dot⟩

theorem setSel (h : Same d e) (anchor dot : Nat) :
    Same (d.setSel anchor dot) (e.setSel anchor dot) := by
  refine ⟨⟨h.text, h.history⟩, ?_⟩
  change min dot d.text.length = min dot e.text.length
  rw [h.text]

theorem setAnchor (h : Same d e) (anchor : Nat) :
    Same (d.setAnchor anchor) (e.setAnchor anchor) := by
  unfold Document.setAnchor
  rw [h.dot]
  exact h.setSel anchor e.dot

theorem undo (h : Same d e) : Same d.undo e.undo := by
  unfold Document.undo
  rw [h.history]
  cases e.history with
  | nil => exact h
  | cons action rest => exact ⟨⟨rfl, rfl⟩, rfl⟩

end Same

/-- The anchor alone makes no difference. -/
theorem setAnchor_same (anchor : Nat) (d : Document) :
    Same (d.setAnchor anchor) d := by
  refine ⟨⟨rfl, rfl⟩, ?_⟩
  exact Nat.min_eq_left d.dot_le

/-- The selection of a document is where setting it leaves it. -/
theorem setSel_same (h : SameText d e) (anchor : Nat) :
    Same (d.setSel anchor e.dot) e := by
  refine ⟨⟨h.text, h.history⟩, ?_⟩
  change min e.dot d.text.length = e.dot
  rw [h.text]
  exact Nat.min_eq_left e.dot_le

/-!
## What the changes record
-/

theorem deleteRange_eq {start len : Int} (h : 0 ≤ start ∧ 0 < len ∧
    start + len ≤ d.text.length) :
    d.deleteRange start len =
      delete (d := d) start.toNat (start + len).toNat (by omega) := by
  unfold deleteRange
  rw [dif_pos h]

theorem deleteRange_skip {start len : Int} (h : ¬ (0 ≤ start ∧ 0 < len ∧
    start + len ≤ d.text.length)) : d.deleteRange start len = d := by
  unfold deleteRange
  rw [dif_neg h]

/-- Whether a deletion records an action. -/
theorem deleteRange_history (start len : Int) (d : Document) :
    (d.deleteRange start len).history.length =
      d.history.length +
        (if 0 ≤ start ∧ 0 < len ∧ start + len ≤ d.text.length then 1
          else 0) := by
  by_cases h : 0 ≤ start ∧ 0 < len ∧ start + len ≤ d.text.length
  · rw [deleteRange_eq h, if_pos h]
    rfl
  · rw [deleteRange_skip h, if_neg h, Nat.add_zero]

theorem addText_history {str : Bytes} (h : str ≠ []) (d : Document) :
    (d.addText str).history.length = d.history.length + 1 := by
  unfold addText
  rw [if_neg h]
  rfl

/-- `SCI_UNDO` takes a deletion back. -/
theorem undo_deleteRange {start len : Int} (h : 0 ≤ start ∧ 0 < len ∧
    start + len ≤ d.text.length) :
    SameText (d.deleteRange start len).undo d := by
  rw [deleteRange_eq h]
  exact ⟨rfl, rfl⟩

theorem undo_addText {str : Bytes} (h : str ≠ []) :
    SameText (d.addText str).undo d := by
  unfold addText
  rw [if_neg h]
  exact ⟨rfl, rfl⟩

end Document

end Editing
end SciTECO
