import SciTECO.Editing.SearchBalance
import SciTECO.Editing.SearchRing

/-!
# The match ranges of `FK`

The character which terminates the pattern of `FK` stores the pattern and kills
the text up to the match.  Killing forwards also moves the match ranges, which
have an undo token only if the match has been found by the same character.
-/

namespace SciTECO
namespace Editing

open EStateM

namespace Editor

variable {s t u w : Editor}

/-!
## Typing a character again
-/

/-- Type a character, which is followed by the tokens it pushes. -/
def typeChar (char : Command Unit) (s : Editor) : Editor :=
  finalState (char { s with tokens := [] })

/-- Rub a character out. -/
def rubOut (s : Editor) : Editor := runTokens s.tokens s

/-- The state after a character has been typed and rubbed out a number of
times. -/
def rounds (char : Command Unit) : Nat -> Editor -> Editor
  | 0, s => s
  | n + 1, s => rounds char n (rubOut (typeChar char s))

/-- Rubbing a character out restores the ranges, and rubbing it in again has
the same ranges as the first time, for any number of rounds. -/
def KeepsRanges (char : Command Unit) (s : Editor) : Prop :=
  forall n, (rounds char n s).ranges = s.ranges ∧
    (typeChar char (rounds char n s)).ranges = (typeChar char s).ranges

/-- What matters for the characters that follow. -/
def core (s : Editor) : Editor :=
  { s with results := [], tokens := [], recorded := 0, deletions := [] }

theorem runToken_core (token : Token) (h : s.core = t.core) :
    (s.runToken token).core = (t.runToken token).core := by
  have hrun : forall v : Editor,
      (v.runToken token).core = (v.core.runToken token).core := by
    intro v
    cases token <;> rfl
  rw [hrun s, hrun t, h]

theorem runTokens_core (tokens : List Token) (h : s.core = t.core) :
    (runTokens tokens s).core = (runTokens tokens t).core := by
  induction tokens generalizing s t with
  | nil => exact h
  | cons token rest ih => exact ih (runToken_core token h)

/-!
## The document alone
-/

/-- Another current document, and other ranges. -/
def put (d : Document) (ranges : List Range) (s : Editor) : Editor :=
  { s.ssm (fun _ => d) with ranges := ranges }

@[simp] theorem put_document (d : Document) (ranges : List Range)
    (s : Editor) : (put d ranges s).document = d :=
  Function.update_self _ _ _

theorem put_ssm (d : Document) (ranges : List Range)
    (f : Document -> Document) (s : Editor) :
    (put d ranges s).ssm f = put (f d) ranges s := by
  unfold ssm
  rw [put_document]
  unfold put ssm
  dsimp only
  rw [Function.update_idem]

theorem put_self (s : Editor) : put s.document s.ranges s = s := by
  unfold put ssm document
  rw [Function.update_eq_self]

theorem put_put (d e : Document) (ranges ranges' : List Range)
    (s : Editor) : put e ranges' (put d ranges s) = put e ranges' s := by
  have hput := congrArg (fun v : Editor => { v with ranges := ranges' })
    (put_ssm d ranges (fun _ => e) s)
  exact hput

theorem put_core (d : Document) (ranges : List Range) (h : s.core = t.core) :
    (put d ranges s).core = (put d ranges t).core := by
  have hput : forall v : Editor,
      (put d ranges v).core = (put d ranges v.core).core := fun _ => rfl
  rw [hput s, hput t, h]

end Editor

namespace Document

variable {d : Document}

theorem setSel_self (d : Document) : d.setSel d.anchor d.dot = d := by
  unfold setSel
  cases d with
  | mk text anchor dot history characterIndex anchor_le dot_le =>
      congr 1
      · exact Nat.min_eq_left anchor_le
      · exact Nat.min_eq_left dot_le

theorem setSel_setAnchor (anchor dot anchor' : Nat) (d : Document) :
    (d.setSel anchor dot).setAnchor anchor' = d.setSel anchor' dot := by
  unfold setAnchor setSel
  dsimp only
  congr 1
  exact Nat.min_eq_left (Nat.min_le_right dot d.text.length)

/-- Undoing a deletion leaves the caret behind the range. -/
theorem undo_deleteRange_eq {start len : Int} (h : 0 ≤ start ∧ 0 < len ∧
    start + len ≤ d.text.length) :
    (d.deleteRange start len).undo = d.gotoPos (start + len).toNat := by
  have hle : (start + len).toNat ≤ d.text.length := by omega
  rw [deleteRange_eq h]
  unfold delete undo gotoPos setSel
  dsimp only
  congr 1
  · exact (Nat.min_eq_left hle).symm
  · exact (Nat.min_eq_left hle).symm

end Document

namespace Editor

variable {s t u w : Editor}

section

variable (sci : Scintilla)

/-!
## Rubbing out a kill
-/

/-- The shift of the ranges after killing forwards. -/
def shiftRanges (d : Document) (start : Nat) (ranges : List Range) :
    List Range :=
  ranges.map (fun range =>
    (range.1 - (sci.bytes2glyphs d d.anchor - sci.bytes2glyphs d start),
      range.2 - (sci.bytes2glyphs d d.anchor - sci.bytes2glyphs d start)))

/-- The ranges after a kill. -/
def rangesAfter (d : Document) (start : Nat) (ranges : List Range) :
    List Range :=
  if start < d.dot then shiftRanges sci d start ranges else ranges

theorem undoSsm_ranges (token : Token) (s : Editor) :
    (s.undoSsm token).ranges = s.ranges := by
  rw [undoSsm_def]

theorem killForwards_ranges (s : Editor) :
    (killForwards sci s).ranges =
      shiftRanges sci s.document s.searchParameters.dot s.ranges := by
  unfold killForwards shiftRanges
  dsimp only
  split
  · rw [undoSsm_ranges]
    change List.map _ (s.undoSsm _).ranges = _
    rw [undoSsm_ranges]
  · change List.map _ (s.undoSsm _).ranges = _
    rw [undoSsm_ranges]

theorem searchKill_ranges (s : Editor) :
    (searchKill sci s).ranges =
      rangesAfter sci s.document s.searchParameters.dot s.ranges := by
  unfold rangesAfter
  by_cases h : s.searchParameters.dot < s.document.dot
  · rw [if_pos h, searchKill_forwards sci h]
    exact killForwards_ranges sci s
  · rw [if_neg h, searchKill_backwards sci h, undoAction_deleteRange]
    rfl

theorem searchKill_forwards_back
    (h : s.searchParameters.dot < s.document.dot) (hundo : s.undoes = true) :
    exists new d, (searchKill sci s).tokens = new ++ s.tokens ∧
      (runTokens new (searchKill sci s)).core =
        (put d (searchKill sci s).ranges s).core ∧
      (s.searchParameters.dot ≤ s.document.anchor ->
        d = s.document.gotoPos s.document.dot) := by
  let killed := (s.document.gotoPos s.document.anchor).deleteRange
    s.searchParameters.dot
    (s.document.anchor - s.searchParameters.dot : Int)
  have htokens : (searchKill sci s).tokens = forwardTokens s := by
    rw [searchKill_forwards sci h, killForwards_eq]
  have hcore : (searchKill sci s).core =
      (put killed (searchKill sci s).ranges s).core := by
    have hranges : (searchKill sci s).ranges =
        (killForwards sci s).ranges := by
      rw [searchKill_forwards sci h]
    rw [hranges, searchKill_forwards sci h, killForwards_eq]
    have hssm := put_ssm (s.document.gotoPos s.document.anchor) s.ranges
      (Document.deleteRange s.searchParameters.dot
        (s.document.anchor - s.searchParameters.dot : Int)) s
    have hcongr := congrArg (fun v : Editor =>
      { v.core with ranges := (killForwards sci s).ranges }) hssm
    exact hcongr
  have hanchor := s.document.anchor_le
  unfold forwardTokens at htokens
  rw [if_pos hundo] at htokens
  by_cases hdot : s.searchParameters.dot ≠ s.document.anchor
  · rw [if_pos hdot] at htokens
    refine ⟨[.undo, .gotoPos s.document.dot],
      killed.undo.gotoPos s.document.dot, htokens, ?_, ?_⟩
    · rw [runTokens_core _ hcore]
      change (((put killed _ s).ssm Document.undo).ssm
        (Document.gotoPos s.document.dot)).core = _
      rw [put_ssm, put_ssm]
    · intro hle
      have hrange : 0 ≤ (s.searchParameters.dot : Int) ∧
          0 < (s.document.anchor - s.searchParameters.dot : Int) ∧
            s.searchParameters.dot +
              (s.document.anchor - s.searchParameters.dot : Int) ≤
                (s.document.gotoPos s.document.anchor).text.length := by
        change _ ∧ _ ∧ _ ≤ ((s.document.text.length : Nat) : Int)
        omega
      rw [Document.undo_deleteRange_eq hrange]
      rfl
  · rw [if_neg hdot] at htokens
    refine ⟨[.gotoPos s.document.dot],
      killed.gotoPos s.document.dot, htokens, ?_, ?_⟩
    · rw [runTokens_core _ hcore]
      change ((put killed _ s).ssm
        (Document.gotoPos s.document.dot)).core = _
      rw [put_ssm]
    · intro _
      have hkilled : killed = s.document.gotoPos s.document.anchor :=
        Document.deleteRange_skip (by omega)
      rw [hkilled]
      rfl

theorem searchKill_backwards_back
    (h : ¬ s.searchParameters.dot < s.document.dot)
    (hundo : s.undoes = true) :
    exists new d, (searchKill sci s).tokens = new ++ s.tokens ∧
      (runTokens new (searchKill sci s)).core =
        (put d (searchKill sci s).ranges s).core ∧
      (s.searchParameters.dot ≤ s.document.text.length ->
        d = s.document ∨ d = s.document.gotoPos s.searchParameters.dot) := by
  let killed := s.document.deleteRange s.document.dot
    (s.searchParameters.dot - s.document.dot : Int)
  have htokens : (searchKill sci s).tokens = backwardTokens s := by
    rw [searchKill_backwards sci h]
  have hcore : (searchKill sci s).core =
      (put killed (searchKill sci s).ranges s).core := by
    rw [searchKill_backwards sci h, undoAction_deleteRange]
    rfl
  unfold backwardTokens at htokens
  by_cases hdot : s.searchParameters.dot ≠ s.document.dot
  · rw [if_pos hdot, if_pos hundo] at htokens
    refine ⟨[.undo], killed.undo, htokens, ?_, ?_⟩
    · rw [runTokens_core _ hcore]
      change ((put killed _ s).ssm Document.undo).core = _
      rw [put_ssm]
    · intro hle
      apply Or.inr
      have hrange : 0 ≤ (s.document.dot : Int) ∧
          0 < (s.searchParameters.dot - s.document.dot : Int) ∧
            s.document.dot + (s.searchParameters.dot - s.document.dot : Int) ≤
              s.document.text.length := by
        omega
      have hstop : (s.document.dot +
          (s.searchParameters.dot - s.document.dot : Int)).toNat =
            s.searchParameters.dot := by
        omega
      rw [Document.undo_deleteRange_eq hrange, hstop]
  · rw [if_neg hdot] at htokens
    refine ⟨[], killed, htokens, hcore, ?_⟩
    intro _
    apply Or.inl
    exact Document.deleteRange_skip (by omega)

/-!
## Rubbing out the end of the pattern
-/

/-- The pattern is stored unless it is empty. -/
def store (str : Bytes) (s : Editor) : Editor :=
  if str ≠ [] then setSearchString str s else s

/-- The kill after a successful search. -/
def killFound (s : Editor) : Editor :=
  if isSuccess s.searchState then searchKill sci s else s

/-- What follows the search at the end of the pattern. -/
def endOfKill (str : Bytes) (modifierColon : Nat) (s : Editor) : Editor :=
  killFound sci (pushState modifierColon (store str s))

/-- The string of the register `_` is set while the register is edited. -/
def Overwrites (str : Bytes) (s : Editor) : Prop :=
  str ≠ [] ∧ s.shown = .qreg .search

instance (str : Bytes) (s : Editor) : Decidable (Overwrites str s) := by
  unfold Overwrites
  infer_instance

omit sci in
theorem setSearchString_eq (str : Bytes) (hundo : s.undoes = true) :
    setSearchString str s =
      { (withString .search str s).ssm
          (Document.setAnchor s.document.anchor) with
        tokens := .string .search (s.documents (.qreg .search)) ::
          .setAnchor s.document.anchor :: s.tokens } := by
  have henabled := (Bool.and_eq_true_iff.mp hundo).2
  unfold setSearchString
  dsimp only
  rw [undoSsm_of_undoes hundo]
  unfold setString push
  dsimp only
  have hmust : QReg.search.mustUndo = true := rfl
  rw [if_pos hmust, if_pos henabled]
  rfl

omit sci in
theorem store_document {str : Bytes} (h : ¬ Overwrites str s) :
    (store str s).document = s.document := by
  unfold store
  split
  · next hstr =>
      have hshown : s.shown ≠ .qreg .search := fun heq => h ⟨hstr, heq⟩
      have hsame := document_untracked (setSearchString_untracked str s)
      rw [hsame]
      unfold ssm document withString
      dsimp only
      rw [Function.update_self, Function.update_of_ne hshown, setAnchor_self]
  · rfl

omit sci in
/-- A register which is edited has its dot at the start after it has been
set. -/
theorem store_document_dot {str : Bytes} (h : Overwrites str s) :
    (store str s).document.dot = 0 := by
  have hsame := document_untracked (setSearchString_untracked str s)
  unfold store
  rw [if_pos h.1, hsame]
  unfold ssm document withString
  dsimp only
  rw [Function.update_self, h.2, Function.update_self]
  unfold Document.setAnchor Document.setSel Document.appendText
  dsimp only
  split
  · rfl
  · exact Nat.zero_min _

/-- What storing the pattern leaves as it is. -/
structure Stores (s t : Editor) : Prop extends Keeps s t where
  searchParameters : t.searchParameters = s.searchParameters
  searchState : t.searchState = s.searchState
  ranges : t.ranges = s.ranges

omit sci in
theorem store_stores (str : Bytes) (hundo : s.undoes = true) :
    Stores s (store str s) := by
  unfold store
  split
  · rw [setSearchString_eq str hundo]
    exact ⟨⟨rfl, rfl, rfl⟩, rfl, rfl, rfl⟩
  · exact ⟨Keeps.refl s, rfl, rfl, rfl⟩

/-- Once the string of the register is back, only the current document may be
different, and it is not if it is the document of the register. -/
theorem string_back {str : Bytes} (hstr : str ≠ []) (hundo : s.undoes = true)
    (d : Document) (ranges : List Range) :
    ((put d ranges (store str s)).runToken
        (.string .search (s.documents (.qreg .search)))).core =
      (put (if Overwrites str s then s.document else d) ranges s).core := by
  have hdocuments : ((put d ranges (store str s)).runToken
      (.string .search (s.documents (.qreg .search)))).documents =
        (put (if Overwrites str s then s.document else d) ranges s).documents := by
    unfold store
    rw [if_pos hstr, setSearchString_eq str hundo]
    unfold put ssm document runToken withString
    dsimp only
    rw [Function.update_idem]
    by_cases hshown : s.shown = .qreg .search
    · rw [if_pos ⟨hstr, hshown⟩, hshown, Function.update_idem,
        Function.update_idem]
    · rw [if_neg (fun h => hshown h.2), Function.update_comm hshown,
        Function.update_idem, Function.update_eq_self]
  unfold store at hdocuments ⊢
  rw [if_pos hstr, setSearchString_eq str hundo] at hdocuments ⊢
  have hcongr := congrArg (fun documents =>
    { s.core with documents := documents, ranges := ranges }) hdocuments
  exact hcongr

omit sci in
theorem pushState_core (modifierColon : Nat) (s : Editor) :
    (pushState modifierColon s).core = s.core := by
  unfold pushState
  split <;> rfl

omit sci in
theorem pushState_tokens (modifierColon : Nat) (s : Editor) :
    (pushState modifierColon s).tokens = s.tokens := by
  unfold pushState
  split <;> rfl

/-- Where the selection is after a kill has been rubbed out. -/
def Reselected (s : Editor) (d : Document) : Prop :=
  exists anchor dot, d = s.document.setSel anchor dot ∧
    (dot = s.document.dot ∨
      dot = s.searchParameters.dot ∧
        s.document.dot ≤ s.searchParameters.dot)

theorem killFound_back (hundo : s.undoes = true) :
    exists new d, (killFound sci s).tokens = new ++ s.tokens ∧
      (runTokens new (killFound sci s)).core =
        (put d (killFound sci s).ranges s).core ∧
      ((isSuccess s.searchState = true -> KillMeets s) ->
        Reselected s d) := by
  unfold killFound
  by_cases hstate : isSuccess s.searchState = true
  · rw [if_pos hstate]
    by_cases hdot : s.searchParameters.dot < s.document.dot
    · rcases searchKill_forwards_back sci hdot hundo with
        ⟨new, d, htokens, hcore, hd⟩
      refine ⟨new, d, htokens, hcore, ?_⟩
      intro hmeets
      have hle := hmeets hstate
      unfold KillMeets at hle
      rw [if_pos hdot] at hle
      exact ⟨s.document.dot, s.document.dot, hd hle, Or.inl rfl⟩
    · rcases searchKill_backwards_back sci hdot hundo with
        ⟨new, d, htokens, hcore, hd⟩
      refine ⟨new, d, htokens, hcore, ?_⟩
      intro hmeets
      have hle := hmeets hstate
      unfold KillMeets at hle
      rw [if_neg hdot] at hle
      rcases hd hle with heq | heq
      · refine ⟨s.document.anchor, s.document.dot, ?_, Or.inl rfl⟩
        rw [heq, Document.setSel_self]
      · exact ⟨s.searchParameters.dot, s.searchParameters.dot, heq,
          Or.inr ⟨rfl, Nat.le_of_not_lt hdot⟩⟩
  · rw [if_neg hstate]
    refine ⟨[], s.document, rfl, ?_, ?_⟩
    · rw [put_self]
      rfl
    · intro _
      refine ⟨s.document.anchor, s.document.dot, ?_, Or.inl rfl⟩
      rw [Document.setSel_self]

/-- The kill takes place inside the document, or it is made in a document which
is replaced anyway. -/
def EndMeets (str : Bytes) (s : Editor) : Prop :=
  isSuccess s.searchState = true -> ¬ Overwrites str s -> KillMeets s

omit sci in
theorem stored_stores (str : Bytes) (modifierColon : Nat)
    (hundo : s.undoes = true) :
    Stores s (pushState modifierColon (store str s)) := by
  have hstores := store_stores str hundo
  unfold pushState
  split
  · exact ⟨⟨hstores.shown, hstores.qregCurrent, hstores.undoEnabled⟩,
      hstores.searchParameters, hstores.searchState, hstores.ranges⟩
  · exact hstores

omit sci in
theorem stored_document {str : Bytes} (modifierColon : Nat)
    (h : ¬ Overwrites str s) :
    (pushState modifierColon (store str s)).document = s.document := by
  have hcore := congrArg Editor.document (pushState_core modifierColon
    (store str s))
  exact Eq.trans hcore (store_document h)

/-- The tokens for the pattern that is stored. -/
def storeTokens (str : Bytes) (s : Editor) : List Token :=
  if str ≠ [] then
    [.string .search (s.documents (.qreg .search)),
      .setAnchor s.document.anchor]
  else []

omit sci in
theorem stored_tokens (str : Bytes) (modifierColon : Nat)
    (hundo : s.undoes = true) :
    (pushState modifierColon (store str s)).tokens =
      storeTokens str s ++ s.tokens := by
  rw [pushState_tokens]
  unfold store storeTokens
  split
  · rw [setSearchString_eq str hundo]
    rfl
  · rfl

/-- The document which these tokens leave for another one. -/
def unstored (str : Bytes) (s : Editor) (d : Document) : Document :=
  if str ≠ [] then
    (if Overwrites str s then s.document else d).setAnchor s.document.anchor
  else d

omit sci in
theorem storeTokens_back (str : Bytes) (modifierColon : Nat)
    (hundo : s.undoes = true) (d : Document) (ranges : List Range) :
    (runTokens (storeTokens str s)
      (put d ranges (pushState modifierColon (store str s)))).core =
        (put (unstored str s d) ranges s).core := by
  rw [runTokens_core _ (put_core d ranges
    (pushState_core modifierColon (store str s)))]
  unfold storeTokens unstored
  by_cases hstr : str ≠ []
  · rw [if_pos hstr, if_pos hstr]
    change ((runToken (.string .search (s.documents (.qreg .search)))
      (put d ranges (store str s))).runToken
        (.setAnchor s.document.anchor)).core = _
    rw [runToken_core _ (string_back hstr hundo d ranges)]
    change ((put _ ranges s).ssm (Document.setAnchor _)).core = _
    rw [put_ssm]
  · have hstore : store str s = s := if_neg hstr
    rw [if_neg hstr, if_neg hstr, hstore]
    rfl

/-- Where the selection is after the end of the pattern has been rubbed out.
It is restored as well if a pattern has been stored, apart from the dot after a
kill backwards. -/
def EndReselected (str : Bytes) (s : Editor) (d : Document) : Prop :=
  exists anchor dot, d = s.document.setSel anchor dot ∧
    (str ≠ [] -> anchor = s.document.anchor ∧
      (dot = s.document.dot ∨
        dot = s.searchParameters.dot ∧
          s.document.dot ≤ s.searchParameters.dot))

omit sci in
theorem unstored_reselected {str : Bytes} {d : Document}
    (h : ¬ Overwrites str s -> Reselected s d) :
    EndReselected str s (unstored str s d) := by
  unfold unstored
  by_cases hstr : str ≠ []
  · rw [if_pos hstr]
    by_cases hover : Overwrites str s
    · refine ⟨s.document.anchor, s.document.dot, ?_,
        fun _ => ⟨rfl, Or.inl rfl⟩⟩
      rw [if_pos hover, setAnchor_self, Document.setSel_self]
    · rcases h hover with ⟨anchor, dot, heq, hdot⟩
      refine ⟨s.document.anchor, dot, ?_, fun _ => ⟨rfl, hdot⟩⟩
      rw [if_neg hover, heq, Document.setSel_setAnchor]
  · have hover : ¬ Overwrites str s := fun hover => hstr hover.1
    rcases h hover with ⟨anchor, dot, heq, _⟩
    refine ⟨anchor, dot, ?_, fun h => absurd h hstr⟩
    rw [if_neg hstr, heq]

/-- Rubbing out the end of the pattern leaves everything as it was before but
for the current document and the ranges. -/
theorem endOfKill_back (str : Bytes) (modifierColon : Nat)
    (hundo : s.undoes = true) :
    exists new d, (endOfKill sci str modifierColon s).tokens =
        new ++ s.tokens ∧
      (runTokens new (endOfKill sci str modifierColon s)).core =
        (put d (endOfKill sci str modifierColon s).ranges s).core ∧
      (EndMeets str s -> EndReselected str s d) := by
  let stored := pushState modifierColon (store str s)
  have hstores : Stores s stored := stored_stores str modifierColon hundo
  rcases killFound_back sci (hstores.toKeeps.undoes.trans hundo) with
    ⟨new, d, hnew, hback, hselected⟩
  refine ⟨new ++ storeTokens str s, unstored str s d, ?_, ?_, ?_⟩
  · refine hnew.trans ?_
    rw [stored_tokens str modifierColon hundo, List.append_assoc]
  · rw [runTokens_append]
    refine (runTokens_core _ hback).trans ?_
    exact storeTokens_back str modifierColon hundo d _
  · intro hmeets
    apply unstored_reselected
    intro hover
    have hdocument : stored.document = s.document :=
      stored_document modifierColon hover
    have hrest : Reselected stored d := by
      apply hselected
      intro hsuccess
      rw [hstores.searchState] at hsuccess
      have hle := hmeets hsuccess hover
      unfold KillMeets at hle ⊢
      rw [hstores.searchParameters, hdocument]
      exact hle
    unfold Reselected at hrest
    rw [hstores.searchParameters, hdocument] at hrest
    exact hrest

/-!
## The search process once more

The search is confined to the current document.  Its state is therefore known
together with its tokens.
-/

/-- The state of a search before a regular expression is compiled. -/
def started (s : Editor) : Editor :=
  { s with
    searchState := tecoBool false
    tokens := .searchState s.searchState :: s.selection :: s.tokens }

/-- A match has the only token that restores ranges. -/
def ownTokens (ranges : List Range) : Outcome -> List Token
  | .found _ => [.ranges ranges]
  | _ => []

/-- The state after a search. -/
def ended (o : Outcome) (s : Editor) : Editor :=
  { play sci o s.started with
    tokens := ownTokens s.ranges o ++ s.started.tokens }

omit sci in
theorem started_ready (hs : Ready s) : Ready s.started :=
  ⟨hs.toBuffer, hs.fromBuffer⟩

omit sci in
theorem editSubject_ready (hs : Ready s) : s.editSubject = s := by
  have hsubject : s.subject = s.shown := by
    unfold subject
    split
    · next buffer hbuffer =>
        apply if_neg
        rintro ⟨hqreg, hring⟩
        exact hring (hs.fromBuffer buffer hbuffer hqreg)
    · rfl
  unfold editSubject
  rw [hsubject]

section

variable {Re : Type} (regexps : Regexps Re)

omit sci in
theorem ringOutcome_ready (re : Re) (hs : Ready s) (count : Int) :
    ringOutcome regexps re s count = .ok .missed := by
  unfold ringOutcome
  rw [hs.toBuffer]
  split
  · next heq => cases heq
  · rfl

/-- A match is selected, and its token is pushed. -/
theorem selectRanges_eq (hit : Hit) (henabled : s.undoEnabled = true) :
    selectRanges sci (getRanges hit.offset hit.found) s =
      { select sci hit s with tokens := .ranges s.ranges :: s.tokens } := by
  unfold selectRanges push
  rw [if_pos henabled]
  rfl

/-- The search in the current document, which may fail before it selects
anything. -/
theorem searchRegexp_ready (re : Re) (hs : Ready s) (hundo : s.undoes = true) :
    searchRegexp sci regexps re s.started =
      match regexpOutcome regexps re s with
      | .ok o => .ok () (ended sci o s)
      | .error err => .error err s.started := by
  have hready := started_ready hs
  have henabled := (Bool.and_eq_true_iff.mp hundo).2
  have hsubject : s.documents s.subject = s.document :=
    congrArg Editor.document (editSubject_ready hs)
  let parameters := s.searchParameters
  let subject := (s.document.text.take parameters.toPos.toNat).drop
    parameters.fromPos.toNat
  unfold searchRegexp regexpOutcome findHit
  rw [hsubject, run_modify_bind, editFromBuffer_ready hready, run_get_bind]
  dsimp only
  have hdoSearch : doSearch sci regexps re parameters.fromPos.toNat
      parameters.toPos.toNat parameters.count s.started =
      match findMatch regexps re subject parameters.count with
      | .ok result => .ok result.1
          (selectMatch sci parameters.fromPos.toNat result.2 s.started)
      | .error err => .error err s.started := by
    change (do
      let result <- ofExcept (findMatch regexps re subject parameters.count)
      modify (selectMatch sci parameters.fromPos.toNat result.2)
      pure result.1 : Command Int) s.started = _
    cases findMatch regexps re subject parameters.count <;> rfl
  cases hfind : findMatch regexps re subject parameters.count with
  | error err =>
      rw [hfind] at hdoSearch
      exact run_bind_error hdoSearch
  | ok result =>
      rw [hfind] at hdoSearch
      refine (run_bind_ok hdoSearch).trans ?_
      have hothers := searchOthers_ready sci regexps re hready result.1
      rw [hothers, pure_bind]
      rcases result with ⟨count, hit⟩
      by_cases hcount : count = 0
      · subst hcount
        cases hit with
        | none =>
            change Result.ok () (setSearchState (tecoBool true) s.started) =
              Result.ok () (ended sci .kept s)
            unfold ended play
            dsimp only
            rw [editSubject_ready hready]
            rfl
        | some hit =>
            change Result.ok () (setSearchState (tecoBool true)
              (selectRanges sci (getRanges parameters.fromPos.toNat hit)
                s.started)) = Result.ok () (ended sci (.found _) s)
            have hselect := selectRanges_eq sci
              ⟨parameters.fromPos.toNat, hit⟩
              (show s.started.undoEnabled = true from henabled)
            dsimp only at hselect
            unfold ended play
            dsimp only
            rw [editSubject_ready hready, hselect]
            rfl
      · have hnone : hit = none := by
          have hrest : findHit regexps re s.document.text
              parameters.fromPos.toNat parameters.toPos.toNat
              parameters.count =
                .ok (count, hit.map (Hit.mk parameters.fromPos.toNat)) := by
            change (findMatch regexps re subject parameters.count >>= _) = _
            rw [hfind]
            rfl
          exact Option.map_eq_none_iff.mp (findHit_rest regexps hrest hcount)
        subst hnone
        have hring := ringOutcome_ready regexps re hs count
        change (do
          modify (setSearchState (tecoBool (count = 0)))
          if count = 0 then pure () else modify searchFailure : Command Unit)
            s.started = match (if count = 0 then _
              else ringOutcome regexps re s count : Except TecoError Outcome)
            with | .ok o => .ok () (ended sci o s)
                 | .error err => .error err s.started
        rw [run_modify_bind, if_neg hcount, if_neg hcount, hring,
          decide_eq_false hcount]
        unfold ended play
        dsimp only
        rw [editSubject_ready hready]
        rfl

theorem searchProcess_ready (str : Bytes) (hs : Ready s)
    (hundo : s.undoes = true) :
    match outcome regexps str s with
    | .ok o => searchProcess sci regexps str s = .ok () (ended sci o s)
    | .error err => searchProcess sci regexps str s = .error err s ∨
        searchProcess sci regexps str s = .error err s.started := by
  have henabled := (Bool.and_eq_true_iff.mp hundo).2
  have hstarted : setSearchState (tecoBool false)
      ((s.undoSsm s.selection).push
        (.searchState (s.undoSsm s.selection).searchState)) = s.started := by
    rw [undoSsm_of_undoes hundo]
    unfold push
    rw [if_pos henabled]
    rfl
  unfold outcome
  cases hvalid : validatePattern regexps str with
  | error err =>
      apply Or.inl
      unfold searchProcess
      rw [hvalid]
      rfl
  | ok _ =>
      have hrun : searchProcess sci regexps str s = (do
          let re <- ofExcept (regexps.compile str)
          searchCompiled sci regexps re) s.started := by
        unfold searchProcess
        rw [hvalid, <- hstarted]
        rfl
      rw [hrun]
      cases regexps.compile str with
      | error err => exact Or.inr rfl
      | ok re =>
          cases re with
          | none => exact rfl
          | some re =>
              have hregexp := searchRegexp_ready sci regexps re hs hundo
              change match regexpOutcome regexps re s with
                | .ok o =>
                    searchRegexp sci regexps re s.started =
                      .ok () (ended sci o s)
                | .error err =>
                    searchRegexp sci regexps re s.started = .error err s ∨
                      searchRegexp sci regexps re s.started =
                        .error err s.started
              cases houtcome : regexpOutcome regexps re s with
              | error err =>
                  rw [houtcome] at hregexp
                  exact Or.inr hregexp
              | ok o =>
                  rw [houtcome] at hregexp
                  exact hregexp

/-!
## The terminating character
-/

/-- `FK` and the strings of its pattern while it is typed. -/
def killTyping (args : Arguments) (typed : List Bytes) : Command Unit := do
  searchInitial sci args
  typed.forM (fun str => searchProcess sci regexps str)

/-- The pattern is processed if there is an `insert_len`, that is if it has not
been processed yet. -/
def processPending (pending : Bool) (str : Bytes) : Command Unit :=
  if pending then processPattern sci regexps str else pure ()

/-- The character which terminates the pattern. -/
def killEnd (pending : Bool) (str : Bytes) (modifierColon : Nat) :
    Command Unit := do
  processPending sci regexps pending str
  searchDone sci regexps str modifierColon
  onSuccess (searchKill sci)

theorem searchKillCommand_end (args : Arguments) (typed : List Bytes)
    (str : Bytes) (modifierColon : Nat) :
    searchKillCommand sci regexps args typed str modifierColon = (do
      killTyping sci regexps args typed
      killEnd sci regexps true str modifierColon) := by
  unfold searchKillCommand searching killTyping killEnd processPending
  simp only [bind_assoc, if_true]

/-- The pattern which is searched for by the terminating character. -/
def endPattern (pending : Bool) (str : Bytes) (s : Editor) : Option Bytes :=
  if str = [] then some (s.getString .search)
  else if pending then some str
  else none

theorem killEnd_run (pending : Bool) (str : Bytes) (modifierColon : Nat)
    (s : Editor) :
    killEnd sci regexps pending str modifierColon s =
      match endPattern pending str s with
      | none => .ok () (endOfKill sci str modifierColon s)
      | some pattern =>
          match searchProcess sci regexps pattern s with
          | .ok _ t => .ok () (endOfKill sci str modifierColon t)
          | .error err t => .error err t := by
  -- what comes after the pattern has been stored
  have hrest : forall t u : Editor,
      storePattern sci regexps str t = .ok () u ->
        (do
          searchDone sci regexps str modifierColon
          onSuccess (searchKill sci) : Command Unit) t =
            .ok () (killFound sci (pushState modifierColon u)) := by
    intro t u hstore
    have hdone : searchDone sci regexps str modifierColon t =
        .ok () (pushState modifierColon u) := run_bind_ok hstore
    exact run_bind_ok hdone
  unfold endPattern
  by_cases hstr : str = []
  · have hpending : processPending sci regexps pending str s = .ok () s := by
      unfold processPending processPattern
      cases pending <;> simp [hstr] <;> rfl
    have hstore : storePattern sci regexps str s =
        searchProcess sci regexps (s.getString .search) s := by
      unfold storePattern
      rw [run_get_bind, if_neg (fun h => h hstr)]
    rw [if_pos hstr]
    refine (run_bind_ok hpending).trans ?_
    have hend : forall t : Editor, endOfKill sci str modifierColon t =
        killFound sci (pushState modifierColon t) := by
      intro t
      unfold endOfKill store
      rw [if_neg (fun h => h hstr)]
    dsimp only
    cases hrun : searchProcess sci regexps (s.getString .search) s with
    | ok _ t =>
        refine (hrest s t (hstore.trans hrun)).trans ?_
        rw [<- hend t]
    | error err t =>
        apply run_bind_error
        exact run_bind_error (hstore.trans hrun)
  · have hstore : forall t : Editor, storePattern sci regexps str t =
        .ok () (setSearchString str t) := by
      intro t
      unfold storePattern
      rw [run_get_bind, if_pos hstr]
      rfl
    have hend : forall t : Editor, endOfKill sci str modifierColon t =
        killFound sci (pushState modifierColon (setSearchString str t)) := by
      intro t
      unfold endOfKill store
      rw [if_pos hstr]
    rw [if_neg hstr]
    cases pending with
    | false =>
        have hpending : processPending sci regexps false str s = .ok () s :=
          rfl
        refine (run_bind_ok hpending).trans ?_
        refine (hrest s _ (hstore s)).trans ?_
        rw [<- hend s]
        rfl
    | true =>
        have hpending : processPending sci regexps true str s =
            searchProcess sci regexps str s := by
          unfold processPending processPattern
          rw [if_pos rfl, if_pos hstr]
        rw [if_pos rfl]
        dsimp only
        cases hrun : searchProcess sci regexps str s with
        | ok _ t =>
            refine (run_bind_ok (hpending.trans hrun)).trans ?_
            refine (hrest t _ (hstore t)).trans ?_
            rw [<- hend t]
        | error err t => exact run_bind_error (hpending.trans hrun)

/-!
## The ranges at the end
-/

omit regexps in
/-- The ranges after the end of the pattern. -/
def rangesAtEnd (str : Bytes) (s : Editor) : List Range :=
  if isSuccess s.searchState = true ∧ ¬ Overwrites str s then
    rangesAfter sci s.document s.searchParameters.dot s.ranges
  else s.ranges

omit regexps in
theorem endOfKill_ranges (str : Bytes) (modifierColon : Nat)
    (hundo : s.undoes = true) :
    (endOfKill sci str modifierColon s).ranges = rangesAtEnd sci str s := by
  have hstores := stored_stores str modifierColon hundo
  unfold endOfKill killFound rangesAtEnd
  rw [hstores.searchState]
  by_cases hsuccess : isSuccess s.searchState = true
  · rw [if_pos hsuccess, searchKill_ranges, hstores.searchParameters,
      hstores.ranges]
    by_cases hover : Overwrites str s
    · have hdocument := congrArg Editor.document
        (pushState_core modifierColon (store str s))
      change (pushState modifierColon (store str s)).document =
        (store str s).document at hdocument
      rw [if_neg (fun h => h.2 hover), hdocument]
      unfold rangesAfter
      rw [store_document_dot hover, if_neg (Nat.not_lt_zero _)]
    · rw [if_pos ⟨hsuccess, hover⟩, stored_document modifierColon hover]
  · rw [if_neg hsuccess, if_neg (fun h => hsuccess h.1)]
    exact hstores.ranges

/-- No text before the match is killed: the search has failed, the document is
replaced, or the match is not behind the dot of the search. -/
structure Stays (str : Bytes) (s : Editor) : Prop where
  undoes : s.undoes = true
  inside : s.searchParameters.dot ≤ s.document.text.length
  before : isSuccess s.searchState = true -> ¬ Overwrites str s ->
    s.document.dot ≤ s.searchParameters.dot

omit sci regexps in
theorem Stays.of_core {str : Bytes} (h : s.core = t.core)
    (hs : Stays str s) : Stays str t := by
  have hcore : forall v : Editor, Stays str v.core -> Stays str v :=
    fun v hv => ⟨hv.undoes, hv.inside, hv.before⟩
  have hback : Stays str s.core := ⟨hs.undoes, hs.inside, hs.before⟩
  rw [h] at hback
  exact hcore t hback

omit regexps in
/-- Then the ranges stay as they are. -/
theorem Stays.round {str : Bytes} (hstr : str ≠ []) (modifierColon : Nat)
    (hs : Stays str s) (htokens : s.tokens = []) :
    (endOfKill sci str modifierColon s).ranges = s.ranges ∧
      Stays str (rubOut (endOfKill sci str modifierColon s)) ∧
      (rubOut (endOfKill sci str modifierColon s)).ranges = s.ranges := by
  have hranges : (endOfKill sci str modifierColon s).ranges = s.ranges := by
    rw [endOfKill_ranges sci str modifierColon hs.undoes]
    unfold rangesAtEnd rangesAfter
    split
    · next h => rw [if_neg (Nat.not_lt_of_le (hs.before h.1 h.2))]
    · rfl
  have hmeets : EndMeets str s := by
    intro hsuccess hover
    have hbefore := hs.before hsuccess hover
    unfold KillMeets
    rw [if_neg (Nat.not_lt_of_le hbefore)]
    exact hs.inside
  rcases endOfKill_back sci str modifierColon hs.undoes with
    ⟨new, _, hnew, hback, hd⟩
  rcases hd hmeets with ⟨anchor, dot, rfl, hselected⟩
  have hrub : (rubOut (endOfKill sci str modifierColon s)).core =
      (put (s.document.setSel anchor dot) s.ranges s).core := by
    rw [htokens, List.append_nil] at hnew
    unfold rubOut
    rw [hnew, hback, hranges]
  have hput : Stays str (put (s.document.setSel anchor dot) s.ranges s) := by
    refine ⟨hs.undoes, ?_, ?_⟩
    · rw [put_document]
      exact hs.inside
    · intro hsuccess hover
      have hbefore := hs.before hsuccess hover
      rw [put_document]
      change min dot s.document.text.length ≤ s.searchParameters.dot
      rcases (hselected hstr).2 with hdot | hdot
      · omega
      · omega
  refine ⟨hranges, hput.of_core hrub.symm, ?_⟩
  have hcongr := congrArg Editor.ranges hrub
  exact hcongr

/-!
## When the ranges are kept
-/

/-- The text up to a match is killed, and the match has been found before the
terminating character. -/
def OldMatch (pending : Bool) (str : Bytes) (s : Editor) : Prop :=
  match endPattern pending str s with
  | none => isSuccess s.searchState = true
  | some pattern => outcome regexps pattern s = .ok .kept

/-- The ranges of an older match change when the text before it is killed. -/
def Shifts (pending : Bool) (str : Bytes) (s : Editor) : Prop :=
  OldMatch regexps pending str s ∧ ¬ Overwrites str s ∧
    s.searchParameters.dot < s.document.dot ∧
      shiftRanges sci s.document s.searchParameters.dot s.ranges ≠ s.ranges

/-- The selection begins before a position and ends behind it. -/
def Around (d : Document) (pos : Nat) : Prop := d.anchor < pos ∧ pos < d.dot

/-- The match begins before the dot of the search and ends behind it. -/
def Surrounds (pending : Bool) (str : Bytes) (s : Editor) : Prop :=
  ¬ Overwrites str s ∧
    ((OldMatch regexps pending str s ∧
        Around s.document s.searchParameters.dot) ∨
      exists pattern hit, endPattern pending str s = some pattern ∧
        outcome regexps pattern s = .ok (.found hit) ∧
          Around (select sci hit s).document s.searchParameters.dot)

/-- The state before the terminating character. -/
structure AtEnd (s : Editor) : Prop where
  undoes : s.undoes = true
  ready : Ready s
  inside : s.searchParameters.dot ≤ s.document.text.length

omit sci regexps in
theorem AtEnd.of_core (h : s.core = t.core) (hs : AtEnd s) : AtEnd t := by
  have hcore : forall v : Editor, AtEnd v.core <-> AtEnd v := by
    intro v
    constructor
    · intro hv
      exact ⟨hv.undoes, ⟨hv.ready.toBuffer, hv.ready.fromBuffer⟩, hv.inside⟩
    · intro hv
      exact ⟨hv.undoes, ⟨hv.ready.toBuffer, hv.ready.fromBuffer⟩, hv.inside⟩
  rw [<- hcore, <- h, hcore]
  exact hs

theorem shifts_core (pending : Bool) (str : Bytes) (h : s.core = t.core) :
    Shifts sci regexps pending str s <-> Shifts sci regexps pending str t := by
  have hcore : forall v : Editor, Shifts sci regexps pending str v <->
      Shifts sci regexps pending str v.core := fun _ => Iff.rfl
  rw [hcore s, hcore t, h]

theorem surrounds_core (pending : Bool) (str : Bytes) (h : s.core = t.core) :
    Surrounds sci regexps pending str s <->
      Surrounds sci regexps pending str t := by
  have hcore : forall v : Editor, Surrounds sci regexps pending str v <->
      Surrounds sci regexps pending str v.core := fun _ => Iff.rfl
  rw [hcore s, hcore t, h]

/-- The ranges after the terminating character. -/
def rangesAfterKill (pending : Bool) (str : Bytes) (s : Editor) :
    List Range :=
  match endPattern pending str s with
  | none => rangesAtEnd sci str s
  | some pattern =>
      match outcome regexps pattern s with
      | .ok o => rangesAtEnd sci str (play sci o s)
      | .error _ => s.ranges

theorem rangesAfterKill_core (pending : Bool) (str : Bytes)
    (h : s.core = t.core) :
    rangesAfterKill sci regexps pending str s =
      rangesAfterKill sci regexps pending str t := by
  have hplay : forall (o : Outcome) (v : Editor),
      rangesAtEnd sci str (play sci o v) =
        rangesAtEnd sci str (play sci o v.core) := by
    intro o v
    cases o with
    | ring buffer hit => cases hit <;> rfl
    | _ => rfl
  have hcore : forall v : Editor, rangesAfterKill sci regexps pending str v =
      rangesAfterKill sci regexps pending str v.core := by
    intro v
    change (match endPattern pending str v with
      | none => rangesAtEnd sci str v
      | some pattern =>
          match outcome regexps pattern v with
          | .ok o => rangesAtEnd sci str (play sci o v)
          | .error _ => v.ranges) =
      (match endPattern pending str v with
      | none => rangesAtEnd sci str v
      | some pattern =>
          match outcome regexps pattern v with
          | .ok o => rangesAtEnd sci str (play sci o v.core)
          | .error _ => v.ranges)
    cases endPattern pending str v with
    | none => rfl
    | some pattern =>
        dsimp only
        cases outcome regexps pattern v with
        | error err => rfl
        | ok o => exact hplay o v
  rw [hcore s, hcore t, h]

/-!
## Rubbing out the terminating character
-/

omit regexps in
theorem ended_undoes (o : Outcome) (s : Editor) :
    (ended sci o s).undoes = s.undoes := by
  cases o with
  | ring buffer hit => cases hit <;> rfl
  | _ => rfl

omit regexps in
theorem ended_kept (hs : Ready s) :
    (ended sci .kept s).core =
      (put s.document s.ranges (setSearchState (tecoBool true) s)).core := by
  have hput := put_self (setSearchState (tecoBool true) s)
  change put s.document s.ranges (setSearchState (tecoBool true) s) = _ at hput
  unfold ended play
  dsimp only
  rw [editSubject_ready (started_ready hs), hput]
  rfl

omit regexps in
theorem ended_found (hs : Ready s) (hit : Hit) :
    (ended sci (.found hit) s).core =
      (put (select sci hit s).document (select sci hit s).ranges
        (setSearchState (tecoBool true) s)).core := by
  unfold ended play
  dsimp only
  rw [editSubject_ready (started_ready hs), select_document]
  rfl

omit regexps in
/-- Without a match the selection is at the dot of the search. -/
theorem ended_failed (hs : Ready s) {o : Outcome}
    (ho : o = .invalid ∨ o = .missed) :
    (ended sci o s).core =
      (put (s.document.gotoPos s.searchParameters.dot) s.ranges
        (setSearchState (tecoBool false) s)).core := by
  unfold ended
  rcases ho with rfl | rfl
  · rfl
  · unfold play
    dsimp only
    rw [editSubject_ready (started_ready hs)]
    rfl

omit sci in
theorem outcome_ready {pattern : Bytes} (hs : Ready s) {o : Outcome}
    (h : outcome regexps pattern s = .ok o) :
    o = .kept ∨ (exists hit, o = .found hit) ∨ o = .invalid ∨ o = .missed := by
  rcases except_bind_ok h with ⟨_, _, hrest⟩
  rcases except_bind_ok hrest with ⟨re, _, hre⟩
  cases re with
  | none =>
      cases hre
      exact Or.inr (Or.inr (Or.inl rfl))
  | some re =>
      rcases except_bind_ok hre with ⟨result, _, hresult⟩
      by_cases hcount : result.1 = 0
      · rw [if_pos hcount] at hresult
        cases hhit : result.2 with
        | none =>
            rw [hhit] at hresult
            cases hresult
            exact Or.inl rfl
        | some hit =>
            rw [hhit] at hresult
            cases hresult
            exact Or.inr (Or.inl ⟨hit, rfl⟩)
      · rw [if_neg hcount, ringOutcome_ready regexps re hs] at hresult
        cases hresult
        exact Or.inr (Or.inr (Or.inr rfl))

omit sci regexps in
/-- The tokens of a search bring back the selection and the search state. -/
theorem started_back {v : Editor} {d : Document} {anchor dot : Nat}
    {ranges : List Range} {value : TecoInt}
    (hd : d = s.document.setSel anchor dot)
    (h : v.core = (put d ranges (setSearchState value s)).core) :
    (runTokens [.searchState s.searchState, s.selection] v).core =
      (put s.document ranges s).core := by
  rw [runTokens_core _ h, hd]
  change ((put (s.document.setSel anchor dot) ranges s).ssm
    (Document.setSel s.document.anchor s.document.dot)).core = _
  rw [put_ssm]
  have hsel : (s.document.setSel anchor dot).setSel s.document.anchor
      s.document.dot = s.document.setSel s.document.anchor s.document.dot :=
    rfl
  rw [hsel, Document.setSel_self]

omit regexps in
theorem rangesAtEnd_core (str : Bytes) (h : s.core = t.core) :
    rangesAtEnd sci str s = rangesAtEnd sci str t := by
  have hcore : forall v : Editor,
      rangesAtEnd sci str v = rangesAtEnd sci str v.core := fun _ => rfl
  rw [hcore s, hcore t, h]

omit sci regexps in
/-- The kill is inside the document unless the match is around the dot of the
search. -/
theorem endMeets_of_core {str : Bytes} {d : Document} {ranges : List Range}
    {value : TecoInt} (hinside : s.searchParameters.dot ≤ d.text.length)
    (haround : isSuccess value = true -> ¬ Overwrites str s ->
      ¬ Around d s.searchParameters.dot)
    (h : u.core = (put d ranges (setSearchState value s)).core) :
    EndMeets str u := by
  have hcore : forall v : Editor, EndMeets str v <-> EndMeets str v.core :=
    fun _ => Iff.rfl
  rw [hcore, h, <- hcore]
  intro hsuccess hover
  have hnot := haround hsuccess hover
  have hparameters : (put d ranges
      (setSearchState value s)).searchParameters = s.searchParameters := rfl
  unfold KillMeets
  rw [put_document, hparameters]
  split
  · next hdot =>
      apply Nat.le_of_not_lt
      intro hanchor
      exact hnot ⟨hanchor, hdot⟩
  · exact hinside

omit sci regexps in
theorem ended_document {d : Document} {ranges : List Range} {value : TecoInt}
    (h : u.core = (put d ranges (setSearchState value s)).core) :
    u.document = d := by
  have hdocument := congrArg Editor.document h
  change u.document = (put d ranges (setSearchState value s)).document
    at hdocument
  rw [hdocument, put_document]

/-- The ranges of an older match stay if they are not shifted. -/
theorem rangesAtEnd_kept {pending : Bool} {str : Bytes} {value : TecoInt}
    (hold : OldMatch regexps pending str s)
    (hshifts : ¬ Shifts sci regexps pending str s) :
    rangesAtEnd sci str (put s.document s.ranges (setSearchState value s)) =
      s.ranges := by
  unfold rangesAtEnd
  split
  · next h =>
      rw [put_document]
      change rangesAfter sci s.document s.searchParameters.dot s.ranges = _
      unfold rangesAfter
      split
      · next hdot =>
          apply Classical.not_not.mp
          intro hne
          exact hshifts ⟨hold, h.2, hdot, hne⟩
      · rfl
  · rfl

/-- Rubbing out a terminating character which has searched for the pattern. -/
theorem rubOut_ended {pending : Bool} {str pattern : Bytes}
    (modifierColon : Nat) (hs : AtEnd s) (htokens : s.tokens = [])
    (hpattern : endPattern pending str s = some pattern) {o : Outcome}
    (houtcome : outcome regexps pattern s = .ok o)
    (hshifts : ¬ Shifts sci regexps pending str s)
    (haround : ¬ Surrounds sci regexps pending str s) :
    (rubOut (endOfKill sci str modifierColon (ended sci o s))).core =
      s.core := by
  have hundo := (ended_undoes sci o s).trans hs.undoes
  rcases endOfKill_back sci str modifierColon hundo with
    ⟨new, d, hnew, hback, hd⟩
  rw [endOfKill_ranges sci str modifierColon hundo] at hback
  have hold : o = .kept -> OldMatch regexps pending str s := by
    intro ho
    unfold OldMatch
    rw [hpattern]
    dsimp only
    rw [houtcome, ho]
  have hrub : rubOut (endOfKill sci str modifierColon (ended sci o s)) =
      runTokens [.searchState s.searchState, s.selection]
        (runTokens (ownTokens s.ranges o)
          (runTokens new (endOfKill sci str modifierColon
            (ended sci o s)))) := by
    have hended : (ended sci o s).tokens = ownTokens s.ranges o ++
        [.searchState s.searchState, s.selection] := by
      change ownTokens s.ranges o ++
        (.searchState s.searchState :: s.selection :: s.tokens) = _
      rw [htokens]
    unfold rubOut
    rw [hnew, hended, runTokens_append, runTokens_append]
  have hself : (put s.document s.ranges s).core = s.core := by
    rw [put_self]
  rw [hrub, <- hself]
  rcases outcome_ready regexps hs.ready houtcome with
    rfl | ⟨hit, rfl⟩ | hfailed
  · -- the selection is the one from before
    have hended := ended_kept sci hs.ready
    have hranges : rangesAtEnd sci str (ended sci .kept s) = s.ranges := by
      rw [rangesAtEnd_core sci str hended]
      exact rangesAtEnd_kept sci regexps (hold rfl) hshifts
    have hmeets := endMeets_of_core hs.inside
      (fun _ hover haround' => haround ⟨hover, Or.inl ⟨hold rfl, haround'⟩⟩)
      hended
    rcases hd hmeets with ⟨anchor, dot, heq, _⟩
    rw [hranges] at hback
    have hput := hback.trans (put_core d s.ranges hended)
    rw [put_put] at hput
    rw [ended_document hended] at heq
    exact started_back heq hput
  · have hended := ended_found sci hs.ready hit
    have hmeets := endMeets_of_core (by
        rw [select_document]
        exact hs.inside)
      (fun _ hover haround' => haround ⟨hover,
        Or.inr ⟨pattern, hit, hpattern, houtcome, haround'⟩⟩) hended
    rcases hd hmeets with ⟨anchor, dot, heq, _⟩
    have hput := hback.trans (put_core d _ hended)
    rw [put_put] at hput
    rw [ended_document hended, select_document] at heq
    have hranges := runTokens_core [.ranges s.ranges] hput
    exact started_back heq hranges
  · have hended := ended_failed sci hs.ready hfailed
    have hstate : ¬ isSuccess (tecoBool false) = true := by decide
    have hranges : rangesAtEnd sci str (ended sci o s) = s.ranges := by
      rw [rangesAtEnd_core sci str hended]
      exact if_neg (fun h => hstate h.1)
    have hinside : s.searchParameters.dot ≤
        (s.document.gotoPos s.searchParameters.dot).text.length := hs.inside
    have hmeets : EndMeets str (ended sci o s) := endMeets_of_core hinside
      (fun hsuccess => absurd hsuccess hstate) hended
    rcases hd hmeets with ⟨anchor, dot, heq, _⟩
    have hown : ownTokens s.ranges o = [] := by
      rcases hfailed with rfl | rfl <;> rfl
    rw [hranges] at hback
    have hput := hback.trans (put_core d s.ranges hended)
    rw [put_put] at hput
    rw [ended_document hended] at heq
    rw [hown]
    exact started_back heq hput

omit sci regexps in
theorem endPattern_none {pending : Bool} {str : Bytes}
    (h : endPattern pending str s = none) : str ≠ [] := by
  intro hstr
  unfold endPattern at h
  rw [if_pos hstr] at h
  cases h

omit sci regexps in
/-- The text up to a match behind the dot of the search is killed. -/
def Forwards (str : Bytes) (s : Editor) : Prop :=
  isSuccess s.searchState = true ∧ ¬ Overwrites str s ∧
    s.searchParameters.dot < s.document.dot

/-- Rubbing out a terminating character which only stores the pattern. -/
theorem rubOut_stored {pending : Bool} {str : Bytes} (modifierColon : Nat)
    (hs : AtEnd s) (htokens : s.tokens = [])
    (hpattern : endPattern pending str s = none) (hforwards : Forwards str s)
    (hshifts : ¬ Shifts sci regexps pending str s)
    (haround : ¬ Surrounds sci regexps pending str s) :
    (rubOut (endOfKill sci str modifierColon s)).core = s.core := by
  have hold : OldMatch regexps pending str s := by
    unfold OldMatch
    rw [hpattern]
    exact hforwards.1
  have hself : s.core =
      (put s.document s.ranges (setSearchState s.searchState s)).core := by
    have hput := put_self (setSearchState s.searchState s)
    change put s.document s.ranges (setSearchState _ s) = _ at hput
    rw [hput]
    rfl
  have hranges : (endOfKill sci str modifierColon s).ranges = s.ranges := by
    rw [endOfKill_ranges sci str modifierColon hs.undoes,
      rangesAtEnd_core sci str hself]
    exact rangesAtEnd_kept sci regexps hold hshifts
  have hmeets : EndMeets str s := endMeets_of_core hs.inside
    (fun _ hover haround' => haround ⟨hover, Or.inl ⟨hold, haround'⟩⟩) hself
  rcases endOfKill_back sci str modifierColon hs.undoes with
    ⟨new, _, hnew, hback, hd⟩
  rcases hd hmeets with ⟨anchor, dot, rfl, hselected⟩
  rcases hselected (endPattern_none hpattern) with ⟨hanchor, hdot⟩
  have hdot' : dot = s.document.dot := by
    have hbehind := hforwards.2.2
    rcases hdot with hdot | hdot
    · exact hdot
    · omega
  rw [htokens, List.append_nil] at hnew
  unfold rubOut
  rw [hnew, hback, hranges, hanchor, hdot', Document.setSel_self, put_self]

omit sci in
/-- A search that fails has pushed nothing or only the state before it. -/
theorem rubOut_failed (htokens : s.tokens = [])
    (h : t = s ∨ t = s.started) :
    t.ranges = s.ranges ∧ (rubOut t).core = s.core := by
  rcases h with rfl | rfl
  · unfold rubOut
    rw [htokens]
    exact ⟨rfl, rfl⟩
  · have hstarted : s.started.core =
        (put (s.document.setSel s.document.anchor s.document.dot) s.ranges
          (setSearchState (tecoBool false) s)).core := by
      have hput := put_self (setSearchState (tecoBool false) s)
      change put s.document s.ranges (setSearchState _ s) = _ at hput
      rw [Document.setSel_self, hput]
      rfl
    have hback := started_back rfl hstarted
    have hrun : s.started.tokens = [.searchState s.searchState, s.selection] := by
      change .searchState s.searchState :: s.selection :: s.tokens = _
      rw [htokens]
    unfold rubOut
    rw [hrun, hback, put_self]
    exact ⟨rfl, rfl⟩

/-- The state in which the terminating character ends. -/
theorem killEnd_final (pending : Bool) (str : Bytes) (modifierColon : Nat)
    (hs : AtEnd s) :
    let t := finalState (killEnd sci regexps pending str modifierColon s)
    match endPattern pending str s with
    | none => t = endOfKill sci str modifierColon s
    | some pattern =>
        match outcome regexps pattern s with
        | .ok o => t = endOfKill sci str modifierColon (ended sci o s)
        | .error _ => t = s ∨ t = s.started := by
  dsimp only
  rw [killEnd_run]
  cases endPattern pending str s with
  | none => rfl
  | some pattern =>
      have hprocess := searchProcess_ready sci regexps pattern hs.ready
        hs.undoes
      dsimp only
      cases houtcome : outcome regexps pattern s with
      | error err =>
          rw [houtcome] at hprocess
          rcases hprocess with hrun | hrun
          · rw [hrun]
            exact Or.inl rfl
          · rw [hrun]
            exact Or.inr rfl
      | ok o =>
          rw [houtcome] at hprocess
          dsimp only at hprocess ⊢
          rw [hprocess]
          rfl

theorem killEnd_ranges (pending : Bool) (str : Bytes) (modifierColon : Nat)
    (hs : AtEnd s) (htokens : s.tokens = []) :
    (finalState (killEnd sci regexps pending str modifierColon s)).ranges =
      rangesAfterKill sci regexps pending str s := by
  have hfinal := killEnd_final sci regexps pending str modifierColon hs
  unfold rangesAfterKill
  dsimp only at hfinal
  cases hpattern : endPattern pending str s with
  | none =>
      rw [hpattern] at hfinal
      dsimp only at hfinal
      rw [hfinal]
      exact endOfKill_ranges sci str modifierColon hs.undoes
  | some pattern =>
      rw [hpattern] at hfinal
      dsimp only at hfinal ⊢
      cases houtcome : outcome regexps pattern s with
      | error err =>
          rw [houtcome] at hfinal
          exact (rubOut_failed htokens hfinal).1
      | ok o =>
          rw [houtcome] at hfinal
          dsimp only at hfinal ⊢
          rw [hfinal, endOfKill_ranges sci str modifierColon
            ((ended_undoes sci o s).trans hs.undoes)]
          have hplay : (ended sci o s).core = (play sci o s).core := by
            cases o with
            | ring buffer hit => cases hit <;> rfl
            | _ => rfl
          exact rangesAtEnd_core sci str hplay

/-- Rubbing out the terminating character restores everything, unless a text
before the match is killed that has been found before. -/
theorem killEnd_rubOut (pending : Bool) (str : Bytes) (modifierColon : Nat)
    (hs : AtEnd s) (htokens : s.tokens = [])
    (hshifts : ¬ Shifts sci regexps pending str s)
    (haround : ¬ Surrounds sci regexps pending str s)
    (hforwards : endPattern pending str s = none ->
      Forwards str s) :
    (rubOut (finalState
      (killEnd sci regexps pending str modifierColon s))).core = s.core := by
  have hfinal := killEnd_final sci regexps pending str modifierColon hs
  dsimp only at hfinal
  cases hpattern : endPattern pending str s with
  | none =>
      rw [hpattern] at hfinal
      dsimp only at hfinal
      rw [hfinal]
      exact rubOut_stored sci regexps modifierColon hs htokens hpattern
        (hforwards hpattern) hshifts haround
  | some pattern =>
      rw [hpattern] at hfinal
      dsimp only at hfinal
      cases houtcome : outcome regexps pattern s with
      | error err =>
          rw [houtcome] at hfinal
          exact (rubOut_failed htokens hfinal).2
      | ok o =>
          rw [houtcome] at hfinal
          dsimp only at hfinal
          rw [hfinal]
          exact rubOut_ended sci regexps modifierColon hs htokens hpattern
            houtcome hshifts haround

/-!
## Rounds
-/

/-- A character whose rubout restores everything keeps the ranges. -/
theorem keepsRanges_of_core {char : Command Unit}
    (hback : forall t, t.core = s.core ->
      (rubOut (typeChar char t)).core = s.core)
    (hranges : forall t, t.core = s.core ->
      (typeChar char t).ranges = (typeChar char s).ranges) :
    KeepsRanges char s := by
  have hrounds : forall n t, t.core = s.core ->
      (rounds char n t).core = s.core := by
    intro n
    induction n with
    | zero => exact fun t ht => ht
    | succ n ih => exact fun t ht => ih _ (hback t ht)
  intro n
  have hcore := hrounds n s rfl
  have hsame := congrArg Editor.ranges hcore
  exact ⟨hsame, hranges _ hcore⟩

/-- The state before the character without the tokens of earlier ones. -/
def fresh (s : Editor) : Editor := { s with tokens := [] }

omit sci regexps in
theorem forwards_core (pending : Bool) (str : Bytes) (h : s.core = t.core) :
    (endPattern pending str s = none -> Forwards str s) <->
      (endPattern pending str t = none -> Forwards str t) := by
  have hcore : forall v : Editor,
      (endPattern pending str v = none -> Forwards str v) <->
        (endPattern pending str v.core = none -> Forwards str v.core) :=
    fun _ => Iff.rfl
  rw [hcore s, hcore t, h]

theorem killEnd_keeps_forwards {pending : Bool} {str : Bytes}
    (modifierColon : Nat) (hs : AtEnd s)
    (hshifts : ¬ Shifts sci regexps pending str s)
    (haround : ¬ Surrounds sci regexps pending str s)
    (hforwards : endPattern pending str s = none -> Forwards str s) :
    KeepsRanges (killEnd sci regexps pending str modifierColon) s := by
  apply keepsRanges_of_core
  · intro t ht
    have hcore : t.fresh.core = s.core := ht
    have hback := killEnd_rubOut sci regexps pending str modifierColon
      (hs.of_core hcore.symm) rfl
      (fun h => hshifts ((shifts_core sci regexps pending str hcore).mp h))
      (fun h =>
        haround ((surrounds_core sci regexps pending str hcore).mp h))
      ((forwards_core pending str hcore).mpr hforwards)
    exact hback.trans hcore
  · intro t ht
    have hcore : t.fresh.core = s.core := ht
    have hleft := killEnd_ranges sci regexps pending str modifierColon
      (hs.of_core hcore.symm) rfl
    have hright := killEnd_ranges sci regexps pending str modifierColon
      (@AtEnd.of_core s s.fresh rfl hs) rfl
    refine hleft.trans (Eq.trans ?_ hright.symm)
    exact rangesAfterKill_core sci regexps pending str hcore

omit sci regexps in
theorem endPattern_none_any {pending : Bool} {str : Bytes}
    (h : endPattern pending str s = none) (t : Editor) :
    endPattern pending str t = none := by
  have hstr := endPattern_none h
  unfold endPattern at h ⊢
  rw [if_neg hstr] at h ⊢
  cases pending with
  | false => rfl
  | true => cases h

theorem killEnd_keeps_stays {pending : Bool} {str : Bytes}
    (modifierColon : Nat) (hpattern : endPattern pending str s = none)
    (hs : Stays str s) :
    KeepsRanges (killEnd sci regexps pending str modifierColon) s := by
  have hstr := endPattern_none hpattern
  have htype : forall t, typeChar (killEnd sci regexps pending str
      modifierColon) t = endOfKill sci str modifierColon t.fresh := by
    intro t
    have hnone := endPattern_none_any hpattern t.fresh
    unfold typeChar
    rw [killEnd_run]
    change finalState (match endPattern pending str t.fresh with
      | none => Result.ok () (endOfKill sci str modifierColon t.fresh)
      | some pattern => _) = _
    rw [hnone]
    rfl
  have hround : forall t, Stays str t ->
      (endOfKill sci str modifierColon t.fresh).ranges = t.ranges ∧
        Stays str (rubOut (endOfKill sci str modifierColon t.fresh)) ∧
        (rubOut (endOfKill sci str modifierColon t.fresh)).ranges =
          t.ranges :=
    fun t ht => Stays.round sci hstr modifierColon
      (@Stays.of_core t t.fresh str rfl ht) rfl
  have hrounds : forall n t, Stays str t ->
      (rounds (killEnd sci regexps pending str modifierColon) n t).ranges =
          t.ranges ∧
        Stays str
          (rounds (killEnd sci regexps pending str modifierColon) n t) := by
    intro n
    induction n with
    | zero => exact fun t ht => ⟨rfl, ht⟩
    | succ n ih =>
        intro t ht
        rcases hround t ht with ⟨_, hstays, hranges⟩
        rw [<- htype] at hstays hranges
        rcases ih _ hstays with ⟨hrest, hlast⟩
        exact ⟨hrest.trans hranges, hlast⟩
  intro n
  rcases hrounds n s hs with ⟨hranges, hstays⟩
  refine ⟨hranges, ?_⟩
  rw [htype, htype, (hround _ hstays).1, (hround s hs).1, hranges]

/-- The ranges are kept unless they are shifted or the match is around the dot
of the search. -/
theorem killEnd_keeps {pending : Bool} {str : Bytes} (modifierColon : Nat)
    (hs : AtEnd s) (hshifts : ¬ Shifts sci regexps pending str s)
    (haround : ¬ Surrounds sci regexps pending str s) :
    KeepsRanges (killEnd sci regexps pending str modifierColon) s := by
  by_cases hforwards : endPattern pending str s = none -> Forwards str s
  · exact killEnd_keeps_forwards sci regexps modifierColon hs hshifts haround
      hforwards
  · rcases Classical.not_imp.mp hforwards with ⟨hpattern, hnot⟩
    apply killEnd_keeps_stays sci regexps modifierColon hpattern
    refine ⟨hs.undoes, hs.inside, ?_⟩
    intro hsuccess hover
    apply Nat.le_of_not_lt
    intro hdot
    exact hnot ⟨hsuccess, hover, hdot⟩

/-!
## Ranges that are shifted
-/

/-- The ranges of an older match which are shifted by the terminating character
stay shifted when it is rubbed out. -/
theorem rubOut_shifts {pending : Bool} {str : Bytes} (modifierColon : Nat)
    (hs : AtEnd s) (htokens : s.tokens = [])
    (h : Shifts sci regexps pending str s) :
    (rubOut (finalState
      (killEnd sci regexps pending str modifierColon s))).ranges =
        shiftRanges sci s.document s.searchParameters.dot s.ranges := by
  rcases h with ⟨hold, hover, hdot, _⟩
  have hfinal := killEnd_final sci regexps pending str modifierColon hs
  unfold OldMatch at hold
  dsimp only at hfinal
  cases hpattern : endPattern pending str s with
  | none =>
      rw [hpattern] at hfinal hold
      dsimp only at hfinal hold
      rcases endOfKill_back sci str modifierColon hs.undoes with
        ⟨new, d, hnew, hback, _⟩
      rw [endOfKill_ranges sci str modifierColon hs.undoes] at hback
      rw [htokens, List.append_nil] at hnew
      rw [hfinal]
      unfold rubOut
      rw [hnew]
      refine (congrArg Editor.ranges hback).trans ?_
      change rangesAtEnd sci str s = _
      unfold rangesAtEnd rangesAfter
      rw [if_pos ⟨hold, hover⟩, if_pos hdot]
  | some pattern =>
      rw [hpattern] at hfinal hold
      dsimp only at hfinal hold
      rw [hold] at hfinal
      dsimp only at hfinal
      have hundo := (ended_undoes sci .kept s).trans hs.undoes
      rcases endOfKill_back sci str modifierColon hundo with
        ⟨new, d, hnew, hback, _⟩
      rw [endOfKill_ranges sci str modifierColon hundo] at hback
      have hended : (ended sci .kept s).tokens =
          [.searchState s.searchState, s.selection] := by
        change .searchState s.searchState :: s.selection :: s.tokens = _
        rw [htokens]
      rw [hfinal]
      unfold rubOut
      rw [hnew, hended, runTokens_append]
      refine (congrArg Editor.ranges hback).trans ?_
      change rangesAtEnd sci str (ended sci .kept s) = _
      rw [rangesAtEnd_core sci str (ended_kept sci hs.ready)]
      have hsuccess : isSuccess (tecoBool true) = true := by decide
      unfold rangesAtEnd rangesAfter
      rw [put_document, if_pos ⟨hsuccess, hover⟩]
      exact if_pos hdot

theorem killEnd_shifts {pending : Bool} {str : Bytes} (modifierColon : Nat)
    (hs : AtEnd s) (h : Shifts sci regexps pending str s) :
    ¬ KeepsRanges (killEnd sci regexps pending str modifierColon) s := by
  intro hkeeps
  have hround := (hkeeps 1).1
  have hfresh : AtEnd s.fresh := @AtEnd.of_core s s.fresh rfl hs
  have hshifts : Shifts sci regexps pending str s.fresh :=
    (@shifts_core s s.fresh sci Re regexps pending str rfl).mp h
  have hrub := rubOut_shifts sci regexps modifierColon hfresh rfl hshifts
  exact h.2.2.2 (hrub.symm.trans hround)

/-!
## While the pattern is typed
-/

omit regexps in
theorem searchInitial_atEnd {args : Arguments} (hundo : s.undoes = true)
    (h : searchInitial sci args s = .ok () t) : AtEnd t := by
  have hready := searchInitial_ready sci h
  have hkeeps := ((searchInitial_moves sci args s).of_ok h).toKeeps
  refine ⟨hkeeps.undoes.trans hundo, hready, ?_⟩
  unfold searchInitial at h
  rw [run_modify_bind, run_get_bind] at h
  split at h
  · cases h
  · cases h
    exact Document.dot_le _

theorem ended_atEnd {pattern : Bytes} {o : Outcome} (hs : AtEnd s)
    (h : outcome regexps pattern s = .ok o) : AtEnd (ended sci o s) := by
  have hput : forall (anchor dot : Nat) (ranges : List Range)
      (value : TecoInt), AtEnd (put (s.document.setSel anchor dot) ranges
        (setSearchState value s)) := by
    intro anchor dot ranges value
    refine ⟨hs.undoes, ⟨hs.ready.toBuffer, hs.ready.fromBuffer⟩, ?_⟩
    rw [put_document]
    exact hs.inside
  rcases outcome_ready regexps hs.ready h with rfl | ⟨hit, rfl⟩ | hfailed
  · have hended := ended_kept sci hs.ready
    rw [<- Document.setSel_self s.document] at hended
    exact (hput _ _ _ _).of_core hended.symm
  · have hended := ended_found sci hs.ready hit
    rw [select_document] at hended
    exact (hput _ _ _ _).of_core hended.symm
  · have hended := ended_failed sci hs.ready hfailed
    exact (hput _ _ _ _).of_core hended.symm

theorem typed_atEnd (typed : List Bytes) (hs : AtEnd s)
    (h : typed.forM (fun str => searchProcess sci regexps str) s =
      .ok () t) : AtEnd t := by
  induction typed generalizing s with
  | nil =>
      cases h
      exact hs
  | cons str rest ih =>
      rcases ok_of_bind h with ⟨_, u, hprocess, hrest⟩
      change searchProcess sci regexps str s = _ at hprocess
      have hready := searchProcess_ready sci regexps str hs.ready hs.undoes
      cases houtcome : outcome regexps str s with
      | error err =>
          rw [houtcome] at hready
          rcases hready with herr | herr
          · rw [herr] at hprocess
            cases hprocess
          · rw [herr] at hprocess
            cases hprocess
      | ok o =>
          rw [houtcome] at hready
          dsimp only at hready
          rw [hready] at hprocess
          cases hprocess
          exact ih (ended_atEnd sci regexps hs houtcome) hrest

theorem killTyping_atEnd {args : Arguments} {typed : List Bytes}
    (hundo : s.undoes = true)
    (h : killTyping sci regexps args typed s = .ok () t) : AtEnd t := by
  rcases ok_of_bind h with ⟨_, u, hinitial, htyped⟩
  exact typed_atEnd sci regexps typed (searchInitial_atEnd sci hundo hinitial)
    htyped

/-- Rubbing out the terminating character of `FK` and rubbing it in again keep
the ranges if they are not shifted and the match is not around the dot of the
search.  They do not keep ranges that are shifted. -/
theorem searchKill_ranges_again {args : Arguments} {typed : List Bytes}
    (hundo : s.undoes = true)
    (htyped : killTyping sci regexps args typed s = .ok () t)
    (pending : Bool) (str : Bytes) (modifierColon : Nat) :
    (Shifts sci regexps pending str t ->
        ¬ KeepsRanges (killEnd sci regexps pending str modifierColon) t) ∧
      (¬ Shifts sci regexps pending str t ->
        ¬ Surrounds sci regexps pending str t ->
          KeepsRanges (killEnd sci regexps pending str modifierColon) t) := by
  have hend := killTyping_atEnd sci regexps hundo htyped
  constructor
  · exact killEnd_shifts sci regexps modifierColon hend
  · exact killEnd_keeps sci regexps modifierColon hend

end

end

/-- `FK` has been typed with the start of a pattern. -/
def typedKill (typed : List Bytes) : Editor :=
  finalState (killTyping singleLine literalRegexps (.one 1) typed twiceInText)

/-- A match which is found by the terminating character itself. -/
theorem searchKill_ranges_again_pending :
    KeepsRanges (killEnd singleLine literalRegexps true (utf8 "c") 0)
      (typedKill []) := by
  have hkeeps := (searchKill_ranges_again singleLine literalRegexps
    (show twiceInText.undoes = true from rfl)
    (show killTyping singleLine literalRegexps (.one 1) [] twiceInText =
      .ok () (typedKill []) from rfl) true (utf8 "c") 0).2
  apply hkeeps
  · intro h
    exact nomatch h.1
  · intro h
    rcases h.2 with ⟨_, haround⟩ | ⟨_, _, _, _, haround⟩
    · exact Nat.not_lt_zero _ haround.1
    · exact Nat.not_lt_zero _ haround.1

/-- The pattern has been processed while it was typed.  Its ranges are then
shifted by every round. -/
theorem searchKill_ranges_shifted :
    killTyping singleLine literalRegexps (.one 1) [utf8 "c"] twiceInText =
        .ok () (typedKill [utf8 "c"]) ∧
      (typedKill [utf8 "c"]).ranges = [(2, 3)] ∧
      ¬ KeepsRanges (killEnd singleLine literalRegexps false (utf8 "c") 0)
        (typedKill [utf8 "c"]) := by
  have hround : (rounds (killEnd singleLine literalRegexps false (utf8 "c") 0)
      1 (typedKill [utf8 "c"])).ranges = [(0, 1)] := by decide
  have hranges : (typedKill [utf8 "c"]).ranges = [(2, 3)] := by decide
  refine ⟨rfl, hranges, ?_⟩
  intro hkeeps
  have hsame := (hkeeps 1).1
  rw [hround, hranges] at hsame
  exact absurd hsame (by decide)

end Editor

end Editing
end SciTECO
