import SciTECO.Editing.Outcome
import SciTECO.Lib.Reaches

/-!
# Searches play their outcomes

A search process finds its outcome and has the effect of this outcome, apart
from the undo tokens.
-/

namespace SciTECO
namespace Editing

open EStateM

namespace Editor

/-!
## States without undo tokens
-/

/-- The result of a computation, without undo tokens. -/
def runUntracked {α : Type} (m : Command α) (s : Editor) :
    Except TecoError (α × Editor) :=
  match m s with
  | .ok a t => .ok (a, t.untracked)
  | .error err _ => .error err

variable {α β : Type} {m : Command α} {f : α -> Command β} {s t : Editor}

theorem runUntracked_bind_ok {a : α} {u : Editor}
    (h : runUntracked m s = .ok (a, u)) :
    exists t, t.untracked = u ∧
      runUntracked (m >>= f) s = runUntracked (f a) t := by
  unfold runUntracked at h ⊢
  cases hrun : m s with
  | ok b t =>
      rw [hrun] at h
      cases h
      refine ⟨t, rfl, ?_⟩
      rw [run_bind_ok hrun]
  | error err t =>
      rw [hrun] at h
      cases h

theorem runUntracked_bind_error {err : TecoError}
    (h : runUntracked m s = .error err) :
    runUntracked (m >>= f) s = .error err := by
  unfold runUntracked at h ⊢
  cases hrun : m s with
  | ok b t =>
      rw [hrun] at h
      cases h
  | error e t =>
      rw [hrun] at h
      cases h
      rw [run_bind_error hrun]

theorem runUntracked_modify {g : Editor -> Editor}
    {f : PUnit -> Command β} :
    runUntracked (modify g >>= f) s = runUntracked (f PUnit.unit) (g s) := rfl

theorem runUntracked_get {f : Editor -> Command β} :
    runUntracked (get >>= f) s = runUntracked (f s) s := rfl

theorem push_untracked (token : Token) (s : Editor) :
    (s.push token).untracked = s.untracked := by
  unfold push
  split <;> rfl

theorem undoSsm_untracked (token : Token) (s : Editor) :
    (s.undoSsm token).untracked = s.untracked := by
  unfold undoSsm
  split
  · exact push_untracked token s
  · rfl

/-- States that are the same without tokens show the same document. -/
theorem document_untracked (h : s.untracked = t.untracked) :
    s.document = t.document := by
  have hdocument := congrArg Editor.document h
  exact hdocument

theorem searchParameters_untracked (h : s.untracked = t.untracked) :
    s.searchParameters = t.searchParameters := by
  have hparameters := congrArg Editor.searchParameters h
  exact hparameters

theorem editFromBuffer_untracked (s : Editor) :
    (editFromBuffer s).untracked = s.editSubject.untracked := by
  unfold editFromBuffer editSubject subject
  cases s.searchParameters.fromBuffer with
  | none => rfl
  | some buffer =>
      dsimp only
      by_cases h : s.qregCurrent = none ∧ s.ringCurrent ≠ buffer
      · rw [if_pos h, if_pos h]
        have hpush := congrArg (bufferEdit buffer)
          (push_untracked (.ringEdit s.qregCurrent s.ringCurrent) s)
        exact hpush
      · rw [if_neg h, if_neg h]

theorem selectMatch_untracked (sci : Scintilla) (offset : Nat)
    (hit : Option Match) (s : Editor) :
    (selectMatch sci offset hit s).untracked =
      (selectOption sci (hit.map (Hit.mk offset)) s).untracked := by
  cases hit with
  | none => rfl
  | some hit =>
      change (selectRanges sci (getRanges offset hit) s).untracked = _
      have hpush := push_untracked (.ranges s.ranges) s
      have hselect := congrArg
        (fun u : Editor => select sci ⟨offset, hit⟩ u) hpush
      exact hselect

/-- The effect of an outcome does not depend on tokens. -/
theorem play_untracked (sci : Scintilla) (o : Outcome)
    (h : s.untracked = t.untracked) :
    (play sci o s).untracked = (play sci o t).untracked := by
  have hplay : forall u : Editor,
      (play sci o u).untracked = play sci o u.untracked := by
    intro u
    cases o with
    | ring buffer hit => cases hit <;> rfl
    | _ => rfl
  rw [hplay s, hplay t, h]

end Editor

open Editor

section

variable {Re : Type} (sci : Scintilla) (regexps : Regexps Re)

/-- The outcome does not depend on tokens. -/
theorem outcome_untracked (str : Bytes) {s t : Editor}
    (h : s.untracked = t.untracked) :
    outcome regexps str s = outcome regexps str t := by
  have houtcome : forall u : Editor,
      outcome regexps str u = outcome regexps str u.untracked := fun _ => rfl
  rw [houtcome s, houtcome t, h]

/-!
## The search in one document
-/

theorem doSearch_run (re : Re) (fromPos toPos : Nat) (count : Int)
    (s : Editor) :
    runUntracked (doSearch sci regexps re fromPos toPos count) s =
      (findHit regexps re s.document.text fromPos toPos count).map
        (fun result =>
          (result.1, (selectOption sci result.2 s).untracked)) := by
  unfold findHit
  change runUntracked (do
    let result <- ofExcept (findMatch regexps re
      ((s.document.text.take toPos).drop fromPos) count)
    modify (selectMatch sci fromPos result.2)
    pure result.1) s = _
  cases findMatch regexps re
      ((s.document.text.take toPos).drop fromPos) count with
  | error err => rfl
  | ok result =>
      have hselect := selectMatch_untracked sci fromPos result.2 s
      exact congrArg (fun u => Except.ok (result.1, u)) hselect

/-!
## The search over the ring
-/

theorem searchToBuffer_run (re : Re) (dot : Nat) (count : Int) (s : Editor) :
    runUntracked (searchToBuffer sci regexps re dot s.document.text.length
        count) s =
      (findToBuffer regexps re s.document.text dot count).map
        (fun result =>
          (result.1, (selectOption sci result.2 s).untracked)) := by
  unfold searchToBuffer findToBuffer
  split
  · exact doSearch_run sci regexps re 0 dot count s
  · exact doSearch_run sci regexps re dot s.document.text.length count s

theorem selectOption_untracked {hit : Option Hit} {s t : Editor}
    (h : s.untracked = t.untracked) :
    (selectOption sci hit s).untracked =
      (selectOption sci hit t).untracked := by
  cases hit with
  | none => exact h
  | some hit =>
      have hselect := congrArg (fun u : Editor => select sci hit u) h
      exact hselect

/-- A computation followed by one that only returns a value. -/
theorem runUntracked_bind_pure {α β : Type} {m : Command α} {g : α -> β}
    {s : Editor} :
    runUntracked (m >>= fun a => pure (g a)) s =
      (runUntracked m s).map (fun result => (g result.1, result.2)) := by
  unfold runUntracked
  cases hrun : m s with
  | ok a t =>
      rw [run_bind_ok hrun]
      rfl
  | error err t =>
      rw [run_bind_error hrun]
      rfl

/-- One buffer of the loop over the ring, where the rest of the loop is known. -/
theorem searchBuffers_step (re : Re) (parameters : SearchParameters)
    (toBuffer buffer : Nat) (rest : List Nat) (last : Nat) {count : Int}
    (hcount : count ≠ 0) (s : Editor)
    (htail : forall t c, c ≠ 0 ->
      t.untracked = (bufferEdit buffer s).untracked ->
      runUntracked (searchBuffers sci regexps re parameters toBuffer rest
          buffer c) t =
        (findInRing regexps re
          (fun buffer => (s.documents (.buffer buffer)).text)
          parameters.dot toBuffer rest buffer c).map
            (fun result => ((result.1, result.2.1),
              (selectOption sci result.2.2
                (bufferEdit result.2.1 s)).untracked))) :
    runUntracked (searchBuffers sci regexps re parameters toBuffer
        (buffer :: rest) last count) s =
      (findInRing regexps re
        (fun buffer => (s.documents (.buffer buffer)).text)
        parameters.dot toBuffer (buffer :: rest) last count).map
          (fun result => ((result.1, result.2.1),
            (selectOption sci result.2.2
              (bufferEdit result.2.1 s)).untracked)) := by
  unfold searchBuffers findInRing
  rw [runUntracked_modify, runUntracked_get]
  dsimp only
  by_cases hto : buffer = toBuffer
  · rw [if_pos hto, if_pos hto, runUntracked_bind_pure, searchToBuffer_run]
    change Except.map _ (Except.map _ (findToBuffer regexps re
      (s.documents (.buffer buffer)).text parameters.dot count)) = _
    cases findToBuffer regexps re (s.documents (.buffer buffer)).text
      parameters.dot count <;> rfl
  · rw [if_neg hto, if_neg hto]
    have hsearch := doSearch_run sci regexps re 0
      (s.documents (.buffer buffer)).text.length count (bufferEdit buffer s)
    change _ = Except.map _ (findHit regexps re
      (s.documents (.buffer buffer)).text 0
        (s.documents (.buffer buffer)).text.length count) at hsearch
    cases hfind : findHit regexps re (s.documents (.buffer buffer)).text 0
        (s.documents (.buffer buffer)).text.length count with
    | error err =>
        rw [hfind] at hsearch
        exact runUntracked_bind_error hsearch
    | ok result =>
        rw [hfind] at hsearch
        rcases runUntracked_bind_ok hsearch with ⟨t, ht, hrun⟩
        refine hrun.trans ?_
        by_cases hzero : result.1 = 0
        · rw [if_pos hzero]
          change Except.ok ((result.1, buffer), t.untracked) =
            Except.map _ (if result.1 = 0 then _ else _)
          rw [if_pos hzero, ht]
          rfl
        · rw [if_neg hzero]
          have hnone : result.2 = none := by
            have hfound := findHit_zero regexps hcount hfind
            cases hhit : result.2 with
            | none => rfl
            | some hit =>
                rw [hhit] at hfound
                exact absurd (hfound.mpr rfl) hzero
          rw [hnone] at ht
          have htext := htail t result.1 hzero ht
          refine htext.trans ?_
          change _ = Except.map _ (if result.1 = 0 then _ else _)
          rw [if_neg hzero]

/-- The loop over the ring ends in the buffer which the outcome has. -/
theorem searchBuffers_run (re : Re) (parameters : SearchParameters)
    (toBuffer buffer : Nat) (rest : List Nat) (last : Nat) {count : Int}
    (hcount : count ≠ 0) (s : Editor) :
    runUntracked (searchBuffers sci regexps re parameters toBuffer
        (buffer :: rest) last count) s =
      (findInRing regexps re
        (fun buffer => (s.documents (.buffer buffer)).text)
        parameters.dot toBuffer (buffer :: rest) last count).map
          (fun result => ((result.1, result.2.1),
            (selectOption sci result.2.2
              (bufferEdit result.2.1 s)).untracked)) := by
  induction rest generalizing buffer last count s with
  | nil =>
      apply searchBuffers_step sci regexps re parameters toBuffer buffer []
        last hcount s
      intro t c _ ht
      exact congrArg (fun u => Except.ok ((c, buffer), u)) ht
  | cons next rest ih =>
      apply searchBuffers_step sci regexps re parameters toBuffer buffer
        (next :: rest) last hcount s
      intro t c hc ht
      have hdocuments : t.documents = s.documents := by
        have hcongr := congrArg Editor.documents ht
        exact hcongr
      have hedit : forall b,
          (bufferEdit b t).untracked = (bufferEdit b s).untracked := by
        intro b
        have hcongr := congrArg (bufferEdit b) ht
        exact hcongr
      rw [ih next buffer hc t, hdocuments]
      apply congrArg (fun f => Except.map f _)
      funext result
      rw [selectOption_untracked sci (hedit result.2.1)]

/-!
## The search process
-/

theorem following_ne_nil (buffer : Nat) (buffers : List Nat) :
    exists head rest, following buffer buffers = head :: rest := by
  cases h : following buffer buffers with
  | nil =>
      unfold following at h
      simp at h
  | cons head rest => exact ⟨head, rest, rfl⟩

theorem searchRing_run (re : Re) {fromBuffer toBuffer : Nat} {count : Int}
    (hcount : count ≠ 0) (s : Editor) :
    runUntracked (searchRing sci regexps re fromBuffer toBuffer count) s =
      (findInRing regexps re
        (fun buffer => (s.documents (.buffer buffer)).text)
        s.searchParameters.dot toBuffer
        (following fromBuffer
          (if 0 < count then s.buffers else s.buffers.reverse))
        fromBuffer count).map
          (fun result => (result.1,
            (selectOption sci result.2.2
              (s.enter result.2.1)).untracked)) := by
  let t := if s.ringCurrent = fromBuffer then ringUndoEdit s else s
  have ht : t.untracked = s.untracked := by
    change (if s.ringCurrent = fromBuffer then ringUndoEdit s
      else s).untracked = _
    split
    · exact push_untracked _ s
    · rfl
  have hdocuments : t.documents = s.documents := by
    have hcongr := congrArg Editor.documents ht
    exact hcongr
  have hbuffers : t.buffers = s.buffers := by
    have hcongr := congrArg Editor.buffers ht
    exact hcongr
  have hparameters := searchParameters_untracked ht
  rcases following_ne_nil fromBuffer
    (if 0 < count then s.buffers else s.buffers.reverse) with
      ⟨head, rest, hring⟩
  have hrun := searchBuffers_run sci regexps re s.searchParameters toBuffer
    head rest fromBuffer hcount t
  rw [hdocuments, ← hring] at hrun
  unfold searchRing
  rw [runUntracked_modify, runUntracked_get]
  change runUntracked (do
    let result <- searchBuffers sci regexps re t.searchParameters toBuffer
      (following fromBuffer
        (if 0 < count then t.buffers else t.buffers.reverse))
      fromBuffer count
    modify (fun s => { s with ringCurrent := result.2 })
    pure result.1) t = _
  rw [hparameters, hbuffers]
  cases hfind : findInRing regexps re
      (fun buffer => (s.documents (.buffer buffer)).text)
      s.searchParameters.dot toBuffer
      (following fromBuffer
        (if 0 < count then s.buffers else s.buffers.reverse))
      fromBuffer count with
  | error err =>
      rw [hfind] at hrun
      exact runUntracked_bind_error hrun
  | ok result =>
      rw [hfind] at hrun
      rcases runUntracked_bind_ok hrun with ⟨u, hu, hbind⟩
      refine hbind.trans ?_
      have hcurrent : ({ u with ringCurrent := result.2.1 }).untracked =
          (selectOption sci result.2.2 (s.enter result.2.1)).untracked := by
        have hset := congrArg
          (fun v : Editor => { v with ringCurrent := result.2.1 }) hu
        refine hset.trans ?_
        have henter : (t.enter result.2.1).untracked =
            (s.enter result.2.1).untracked := by
          have hcongr := congrArg (fun v : Editor => v.enter result.2.1) ht
          exact hcongr
        refine Eq.trans ?_ (selectOption_untracked sci henter)
        cases result.2.2 with
        | none => rfl
        | some hit => rfl
      exact congrArg (fun v => Except.ok (result.1, v)) hcurrent

/-- The state of the search at its end. -/
theorem searchEnd_run (count : Int) (s : Editor) :
    runUntracked (do
      modify (setSearchState (tecoBool (count = 0)))
      if count = 0 then pure () else modify searchFailure) s =
      .ok ((), (if count = 0 then setSearchState (tecoBool true) s
        else setSearchState (tecoBool false) (searchFailure s)).untracked) := by
  rw [runUntracked_modify]
  by_cases hzero : count = 0
  · simp only [hzero, if_true, decide_true]
    rfl
  · simp only [hzero, if_false, decide_false]
    rfl

/-- The search after the first document, where this has been left. -/
theorem searchOthers_run (re : Re) {count : Int} (hcount : count ≠ 0)
    {s t : Editor} (ht : t.untracked = s.editSubject.untracked) :
    runUntracked (do
      let count <- searchOthers sci regexps re t.searchParameters count
      modify (setSearchState (tecoBool (count = 0)))
      if count = 0 then pure () else modify searchFailure) t =
      (ringOutcome regexps re s count).map
        (fun o => ((), (play sci o s).untracked)) := by
  have hparameters : t.searchParameters = s.searchParameters := by
    have hcongr := searchParameters_untracked ht
    exact hcongr
  have hmissed : runUntracked (do
      modify (setSearchState (tecoBool (count = 0)))
      if count = 0 then pure () else modify searchFailure) t =
        .ok ((), (play sci .missed s).untracked) := by
    rw [searchEnd_run, if_neg hcount]
    have hfailure := congrArg (fun u =>
      setSearchState (tecoBool false) (searchFailure u)) ht
    exact congrArg (fun u => Except.ok ((), u)) hfailure
  unfold searchOthers ringOutcome
  rw [hparameters]
  cases hfrom : s.searchParameters.fromBuffer with
  | none => exact hmissed
  | some fromBuffer =>
      cases hto : s.searchParameters.toBuffer with
      | none => exact hmissed
      | some toBuffer =>
          have hdocuments : t.documents = s.documents := by
            have hcongr := congrArg Editor.documents ht
            exact hcongr
          have hbuffers : t.buffers = s.buffers := by
            have hcongr := congrArg Editor.buffers ht
            exact hcongr
          have hrun : runUntracked
              (searchRing sci regexps re fromBuffer toBuffer count) t = _ :=
            searchRing_run sci regexps re hcount t
          rw [hdocuments, hbuffers, hparameters] at hrun
          dsimp only
          rw [if_neg hcount]
          cases hfind : findInRing regexps re
              (fun buffer => (s.documents (.buffer buffer)).text)
              s.searchParameters.dot toBuffer
              (following fromBuffer
                (if 0 < count then s.buffers else s.buffers.reverse))
              fromBuffer count with
          | error err =>
              rw [hfind] at hrun
              exact runUntracked_bind_error hrun
          | ok result =>
              rw [hfind] at hrun
              rcases runUntracked_bind_ok hrun with ⟨u, hu, hbind⟩
              refine hbind.trans ?_
              rw [searchEnd_run]
              have hfound := findInRing_zero regexps hcount hfind
              have henter : (t.enter result.2.1).untracked =
                  (s.enter result.2.1).untracked := by
                have hcongr := congrArg
                  (fun v : Editor => v.enter result.2.1) ht
                exact hcongr
              have hselect := hu.trans
                (selectOption_untracked sci henter)
              cases hhit : result.2.2 with
              | none =>
                  rw [hhit] at hfound hselect
                  rw [if_neg (fun hzero => by cases hfound.mp hzero)]
                  have hfailure := congrArg (fun v =>
                    setSearchState (tecoBool false) (searchFailure v)) hselect
                  rcases result with ⟨rest, last, hit⟩
                  cases hhit
                  exact congrArg (fun v => Except.ok ((), v)) hfailure
              | some hit =>
                  rw [hhit] at hfound hselect
                  rw [if_pos (hfound.mpr rfl)]
                  have hsuccess := congrArg
                    (fun v => setSearchState (tecoBool true) v) hselect
                  rcases result with ⟨rest, last, hit'⟩
                  cases hhit
                  exact congrArg (fun v => Except.ok ((), v)) hsuccess

theorem searchRegexp_run (re : Re) (s : Editor) :
    runUntracked (searchRegexp sci regexps re) s =
      (regexpOutcome regexps re s).map
        (fun o => ((), (play sci o s).untracked)) := by
  have ht := editFromBuffer_untracked s
  let t := editFromBuffer s
  have hparameters : t.searchParameters = s.searchParameters := by
    have hcongr := searchParameters_untracked ht
    exact hcongr
  have hdocument : t.document = s.documents s.subject := by
    have hcongr := document_untracked ht
    exact hcongr
  have hrun := doSearch_run sci regexps re t.searchParameters.fromPos.toNat
    t.searchParameters.toPos.toNat t.searchParameters.count t
  rw [hdocument, hparameters] at hrun
  unfold searchRegexp
  rw [runUntracked_modify, runUntracked_get]
  change runUntracked (do
    let count <- doSearch sci regexps re t.searchParameters.fromPos.toNat
      t.searchParameters.toPos.toNat t.searchParameters.count
    let count <- searchOthers sci regexps re t.searchParameters count
    modify (setSearchState (tecoBool (count = 0)))
    if count = 0 then pure () else modify searchFailure) t = _
  unfold regexpOutcome
  rw [hparameters]
  dsimp only
  cases hfind : findHit regexps re (s.documents s.subject).text
      s.searchParameters.fromPos.toNat s.searchParameters.toPos.toNat
      s.searchParameters.count with
  | error err =>
      rw [hfind] at hrun
      exact runUntracked_bind_error hrun
  | ok result =>
      rw [hfind] at hrun
      rcases runUntracked_bind_ok hrun with ⟨u, hu, hbind⟩
      refine hbind.trans ?_
      have hselect := hu.trans (selectOption_untracked sci ht)
      rcases result with ⟨rest, hit⟩
      by_cases hzero : rest = 0
      · subst hzero
        have hothers : searchOthers sci regexps re s.searchParameters 0 =
            pure 0 := by
          unfold searchOthers
          split <;> rfl
        dsimp only
        rw [hothers, pure_bind, searchEnd_run, if_pos rfl]
        have hsuccess := congrArg
          (fun v => setSearchState (tecoBool true) v) hselect
        cases hit with
        | none => exact congrArg (fun v => Except.ok ((), v)) hsuccess
        | some hit => exact congrArg (fun v => Except.ok ((), v)) hsuccess
      · have hnone := findHit_rest regexps hfind hzero
        subst hnone
        have hothers := searchOthers_run sci regexps re hzero hselect
        have hsame : u.searchParameters = s.searchParameters := by
          have hcongr := searchParameters_untracked hselect
          exact hcongr
        rw [hsame] at hothers
        refine hothers.trans ?_
        change _ = Except.map _ (if rest = 0 then _ else _)
        rw [if_neg hzero]

/-- The effect of the pattern so far is the effect of its outcome. -/
theorem searchProcess_run (str : Bytes) (s : Editor) :
    runUntracked (searchProcess sci regexps str) s =
      (outcome regexps str s).map
        (fun o => ((), (play sci o s).untracked)) := by
  unfold searchProcess outcome
  cases hvalid : validatePattern regexps str with
  | error err => rfl
  | ok _ =>
      let t := s.undoSsm (.setSel s.document.anchor s.document.dot)
      let u := setSearchState (tecoBool false)
        (t.push (.searchState t.searchState))
      have hu : u.untracked =
          (setSearchState (tecoBool false) s).untracked := by
        have hpush := (push_untracked (.searchState t.searchState) t).trans
          (undoSsm_untracked (.setSel s.document.anchor s.document.dot) s)
        have hstate := congrArg (setSearchState (tecoBool false)) hpush
        exact hstate
      have hplay : forall o,
          (play sci o u).untracked = (play sci o s).untracked := by
        intro o
        refine (play_untracked sci o hu).trans ?_
        cases o with
        | ring buffer hit => cases hit <;> rfl
        | _ => rfl
      change runUntracked (do
        let re <- ofExcept (regexps.compile str)
        searchCompiled sci regexps re) u = _
      cases hcompile : regexps.compile str with
      | error err => rfl
      | ok re =>
          cases re with
          | none => exact congrArg (fun v => Except.ok ((), v)) (hplay .invalid)
          | some re =>
              have hrun := searchRegexp_run sci regexps re u
              have houtcome : regexpOutcome regexps re u =
                  regexpOutcome regexps re s := by
                have hcongr := congrArg (regexpOutcome regexps re) hu
                exact hcongr
              rw [houtcome] at hrun
              refine hrun.trans ?_
              apply congrArg (fun f => Except.map f _)
              funext o
              rw [hplay o]

end

end Editing
end SciTECO
