import SciTECO.Editing.Play
import SciTECO.Editing.SearchPlan
import SciTECO.Editing.Commands

/-!
# Searching over buffer boundaries

The command `N` takes a count, or the numbers of two buffers.
-/

namespace SciTECO
namespace Editing

open EStateM Editor

/-!
## The command
-/

/-- `teco_ring_find_by_id()`. -/
def ringFind : TecoInt -> List Nat -> Option Nat
  | _, [] => none
  | id, buffer :: rest =>
      if id - 1 = 0 then some buffer else ringFind (id - 1) rest

/-- The count and the buffers where a search starts and ends. -/
structure Bounds where
  count : Int
  fromBuffer : Option Nat
  toBuffer : Option Nat
deriving DecidableEq, Repr

/-- The buffers with two numbers. -/
def findBounds (count : Int) (fromId toId : TecoInt) (buffers : List Nat) :
    Except TecoError Bounds :=
  match ringFind fromId buffers, ringFind toId buffers with
  | some fromBuffer, some toBuffer =>
      .ok { count := count, fromBuffer := fromBuffer, toBuffer := toBuffer }
  | _, _ => .error (rangeError "N")

/-- The bounds for the arguments.  A search in a register does not leave it. -/
def searchAllBounds (args : Arguments) (s : Editor) : Except TecoError Bounds :=
  match args with
  | .two v1 v2 =>
      if v1.sle v2 then findBounds 1 v1 v2 s.buffers
      else findBounds (-1) v2 v1 s.buffers
  | .one v =>
      let current :=
        if s.qregCurrent = none then some s.ringCurrent else none
      .ok { count := gint v, fromBuffer := current, toBuffer := current }

/-- The range of the first document is taken from the current one. -/
def setSearchAllParameters (bounds : Bounds) (s : Editor) : Editor :=
  let dot := s.document.dot
  { s with
    searchParameters :=
      { dot := dot
        fromPos := if 0 ≤ bounds.count then dot else 0
        toPos := if 0 ≤ bounds.count then s.document.text.length else dot
        count := bounds.count
        fromBuffer := bounds.fromBuffer
        toBuffer := bounds.toBuffer } }

/-- `teco_state_search_all_initial()`.  The parameters are undone if it
fails. -/
def searchAllInitial (args : Arguments) : Command Unit := do
  modify (fun s => s.push (.searchParameters s.searchParameters))
  let s <- get
  let bounds <- ofExcept (searchAllBounds args s)
  modify (setSearchAllParameters bounds)

section

variable {Re : Type} (sci : Scintilla) (regexps : Regexps Re)

/-- A search over buffer boundaries.  The ED hook for another buffer is left
out. -/
def searchAll (args : Arguments) (typed : List Bytes) (str : Bytes)
    (modifierColon : Nat) : Command Unit := do
  searchAllInitial args
  typed.forM (fun str => searchProcess sci regexps str)
  processPattern sci regexps str
  searchDone sci regexps str modifierColon

/-!
## The effect of the command
-/

/-- The pattern that is searched for. -/
def searchString (str : Bytes) (s : Editor) : Bytes :=
  if str = [] then s.getString .search else str

/-- What follows the search at the end of the command. -/
def finishSearch (str : Bytes) (modifierColon : Nat) (s : Editor) : Editor :=
  pushState modifierColon (if str = [] then s else setSearchString str s)

theorem searchAllInitial_run (args : Arguments) (s : Editor) :
    runUntracked (searchAllInitial args) s =
      (searchAllBounds args s).map
        (fun bounds => ((), (setSearchAllParameters bounds s).untracked)) := by
  let t := s.push (.searchParameters s.searchParameters)
  have ht := push_untracked (.searchParameters s.searchParameters) s
  have hbounds : searchAllBounds args t = searchAllBounds args s := by
    have hcongr := congrArg (searchAllBounds args) ht
    exact hcongr
  change runUntracked (do
    let bounds <- ofExcept (searchAllBounds args t)
    modify (setSearchAllParameters bounds)) t = _
  rw [hbounds]
  cases searchAllBounds args s with
  | error err => rfl
  | ok bounds =>
      have hcongr := congrArg (setSearchAllParameters bounds) ht
      exact congrArg (fun u => Except.ok ((), u)) hcongr

/-- The document of a register after its string has been set. -/
def withString (reg : QReg) (str : Bytes) (s : Editor) : Editor :=
  { s with
    documents :=
      Function.update s.documents (.qreg reg)
        ((Document.create [] s.defaultIndex).appendText str) }

theorem setString_untracked (reg : QReg) (str : Bytes) (s : Editor) :
    (s.setString reg str).untracked = (withString reg str s).untracked := by
  unfold setString push
  split
  · split <;> rfl
  · rfl

theorem setSearchString_untracked (str : Bytes) (s : Editor) :
    (setSearchString str s).untracked =
      ((withString .search str s).ssm
        (Document.setAnchor s.document.anchor)).untracked := by
  unfold setSearchString
  have hset := (setString_untracked .search str
    (s.undoSsm (.setAnchor s.document.anchor)))
  have hundo := congrArg (withString .search str)
    (undoSsm_untracked (.setAnchor s.document.anchor) s)
  have hstring := hset.trans hundo
  have hanchor := congrArg (fun u : Editor =>
    u.ssm (Document.setAnchor s.document.anchor)) hstring
  exact hanchor

theorem finishSearch_untracked (str : Bytes) (modifierColon : Nat)
    {s t : Editor} (h : s.untracked = t.untracked) :
    (finishSearch str modifierColon s).untracked =
      (finishSearch str modifierColon t).untracked := by
  have hpush : forall u v : Editor, u.untracked = v.untracked ->
      (pushState modifierColon u).untracked =
        (pushState modifierColon v).untracked := by
    intro u v huv
    unfold pushState
    split
    · have hcongr := congrArg (fun w : Editor =>
        { w with results := w.searchState :: w.results }) huv
      exact hcongr
    · exact huv
  unfold finishSearch
  apply hpush
  split
  · exact h
  · rw [setSearchString_untracked, setSearchString_untracked]
    have hcongr := congrArg (fun w : Editor =>
      (withString .search str w).ssm
        (Document.setAnchor w.document.anchor)) h
    exact hcongr

/-- The end of the command, after the search has succeeded or failed. -/
theorem searchDone_run {str : Bytes} (h : str ≠ []) (modifierColon : Nat)
    (s : Editor) :
    runUntracked (searchDone sci regexps str modifierColon) s =
      .ok ((), (finishSearch str modifierColon s).untracked) := by
  unfold searchDone storePattern
  rw [bind_assoc, runUntracked_get, if_pos h]
  unfold finishSearch
  rw [if_neg h]
  rfl

/-- An empty pattern stands for the stored one, which is searched for at the
end of the command. -/
theorem searchDone_empty_run (modifierColon : Nat) (s : Editor) :
    runUntracked (searchDone sci regexps [] modifierColon) s =
      (outcome regexps (s.getString .search) s).map (fun o =>
        ((), (finishSearch [] modifierColon (play sci o s)).untracked)) := by
  have hprocess := searchProcess_run sci regexps (s.getString .search) s
  change runUntracked (do
    searchProcess sci regexps (s.getString .search)
    modify (pushState modifierColon)) s = _
  cases houtcome : outcome regexps (s.getString .search) s with
  | error err =>
      rw [houtcome] at hprocess
      exact runUntracked_bind_error hprocess
  | ok o =>
      rw [houtcome] at hprocess
      rcases runUntracked_bind_ok hprocess with ⟨t, ht, hbind⟩
      refine hbind.trans ?_
      have hfinish := finishSearch_untracked [] modifierColon ht
      exact congrArg (fun u => Except.ok ((), u)) hfinish

/-- The search and the end of the command. -/
theorem processDone_run (str : Bytes) (modifierColon : Nat) (s : Editor) :
    runUntracked (do
      processPattern sci regexps str
      searchDone sci regexps str modifierColon) s =
      (outcome regexps (searchString str s) s).map (fun o =>
        ((), (finishSearch str modifierColon (play sci o s)).untracked)) := by
  by_cases hempty : str = []
  · subst hempty
    exact searchDone_empty_run sci regexps modifierColon s
  · unfold processPattern searchString
    rw [if_pos hempty, if_neg hempty]
    have hprocess := searchProcess_run sci regexps str s
    cases houtcome : outcome regexps str s with
    | error err =>
        rw [houtcome] at hprocess
        exact runUntracked_bind_error hprocess
    | ok o =>
        rw [houtcome] at hprocess
        rcases runUntracked_bind_ok hprocess with ⟨t, ht, hbind⟩
        refine hbind.trans ?_
        rw [searchDone_run sci regexps hempty]
        have hfinish := finishSearch_untracked str modifierColon ht
        exact congrArg (fun u => Except.ok ((), u)) hfinish

/-- The state after the command is the one after its search, where the pattern
has been stored. -/
theorem searchAll_run (args : Arguments) (str : Bytes) (modifierColon : Nat)
    (s : Editor) :
    runUntracked (searchAll sci regexps args [] str modifierColon) s = (do
      let bounds <- searchAllBounds args s
      let t := setSearchAllParameters bounds s
      let o <- outcome regexps (searchString str s) t
      pure ((), (finishSearch str modifierColon (play sci o t)).untracked)) := by
  have hinitial := searchAllInitial_run args s
  unfold searchAll
  cases hbounds : searchAllBounds args s with
  | error err =>
      rw [hbounds] at hinitial
      exact runUntracked_bind_error hinitial
  | ok bounds =>
      rw [hbounds] at hinitial
      rcases runUntracked_bind_ok hinitial with ⟨t, ht, hbind⟩
      refine hbind.trans ?_
      have hdone := processDone_run sci regexps str modifierColon t
      have hpattern : searchString str t = searchString str s := by
        have hcongr := congrArg (searchString str) ht
        exact hcongr
      rw [hpattern, outcome_untracked regexps (searchString str s) ht]
        at hdone
      refine hdone.trans ?_
      change Except.map _ _ = (outcome regexps (searchString str s)
        (setSearchAllParameters bounds s) >>= _)
      cases outcome regexps (searchString str s)
        (setSearchAllParameters bounds s) with
      | error err => rfl
      | ok o =>
          have hplay := play_untracked sci o ht
          have hfinish := finishSearch_untracked str modifierColon hplay
          exact congrArg (fun u => Except.ok ((), u)) hfinish

end

end Editing
end SciTECO
