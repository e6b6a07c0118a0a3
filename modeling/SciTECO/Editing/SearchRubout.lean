import SciTECO.Editing.Rubout

/-!
# Rubout of searches

A search in the current document moves the selection and pushes the selection
before it.  Rubout therefore brings the selection back.
-/

namespace SciTECO
namespace Editing

open EStateM

/-- Tokens that leave all documents alone. -/
def Token.Inert : Token -> Prop
  | .searchState _ => True
  | .searchParameters _ => True
  | .ranges _ => True
  | _ => False

theorem Token.Inert.ne_undo {token : Token} (h : token.Inert) :
    token ≠ .undo := by
  intro heq
  rw [heq] at h
  exact h

theorem Token.Inert.stays {token : Token} (h : token.Inert) :
    token.Stays := by
  cases token with
  | ringEdit qregCurrent ringCurrent => exact h.elim
  | _ => trivial

namespace Editor

variable {s t u : Editor}

theorem runToken_inert {token : Token} (h : token.Inert) (s : Editor) :
    Alike (s.runToken token) s := by
  cases token with
  | searchState value => exact ⟨rfl, fun view => Document.Same.refl _⟩
  | searchParameters parameters =>
      exact ⟨rfl, fun view => Document.Same.refl _⟩
  | ranges ranges => exact ⟨rfl, fun view => Document.Same.refl _⟩
  | setSel anchor dot => exact h.elim
  | gotoPos pos => exact h.elim
  | setAnchor anchor => exact h.elim
  | undo => exact h.elim
  | string reg doc => exact h.elim
  | ringEdit qregCurrent ringCurrent => exact h.elim

theorem runTokens_inert {tokens : List Token}
    (h : forall token, token ∈ tokens -> token.Inert) (s : Editor) :
    Alike (runTokens tokens s) s := by
  induction tokens generalizing s with
  | nil => exact Alike.refl s
  | cons token rest ih =>
      have hhead := runToken_inert (h token List.mem_cons_self) s
      have hrest := ih (fun token hmem =>
        h token (List.mem_cons_of_mem _ hmem)) (s.runToken token)
      exact hrest.trans hhead

/-- The search is confined to the current document. -/
structure Ready (s : Editor) : Prop where
  toBuffer : s.searchParameters.toBuffer = none
  fromBuffer : forall buffer, s.searchParameters.fromBuffer = some buffer ->
    s.qregCurrent = none -> s.ringCurrent = buffer

/-!
## Looking for a match

While a match is looked for, nothing changes but the selection of the current
document.
-/

structure Looks (s t : Editor) : Prop extends Keeps s t where
  ringCurrent : t.ringCurrent = s.ringCurrent
  searchParameters : t.searchParameters = s.searchParameters
  recorded : t.recorded = s.recorded
  deletions : t.deletions = s.deletions
  tokens : exists new, t.tokens = new ++ s.tokens ∧
    forall token, token ∈ new -> token.Inert
  text : forall view, (t.documents view).text = (s.documents view).text
  history : forall view,
    (t.documents view).history = (s.documents view).history
  others : forall view, view ≠ s.shown ->
    Document.Same (t.documents view) (s.documents view)

namespace Looks

@[refl] theorem refl (s : Editor) : Looks s s :=
  { Keeps.refl s with
    ringCurrent := rfl
    searchParameters := rfl
    recorded := rfl
    deletions := rfl
    tokens := ⟨[], rfl, fun _ hmem => nomatch hmem⟩
    text := fun _ => rfl
    history := fun _ => rfl
    others := fun _ _ => Document.Same.refl _ }

theorem trans (h : Looks s t) (h' : Looks t u) : Looks s u := by
  refine
    { h.toKeeps.trans h'.toKeeps with
      ringCurrent := h'.ringCurrent.trans h.ringCurrent
      searchParameters := h'.searchParameters.trans h.searchParameters
      recorded := h'.recorded.trans h.recorded
      deletions := h'.deletions.trans h.deletions
      tokens := ?_
      text := fun view => (h'.text view).trans (h.text view)
      history := fun view => (h'.history view).trans (h.history view)
      others := ?_ }
  · rcases h.tokens with ⟨earlier, hearlier, hinert⟩
    rcases h'.tokens with ⟨later, hlater, hinert'⟩
    refine ⟨later ++ earlier, ?_, ?_⟩
    · rw [hlater, hearlier, List.append_assoc]
    · intro token hmem
      rcases List.mem_append.mp hmem with hmem | hmem
      · exact hinert' token hmem
      · exact hinert token hmem
  · intro view hview
    have hview' : view ≠ t.shown := by
      rw [h.shown]
      exact hview
    exact (h'.others view hview').trans (h.others view hview)

theorem ready (h : Looks s t) (hs : Ready s) : Ready t := by
  constructor
  · rw [h.searchParameters]
    exact hs.toBuffer
  · intro buffer hbuffer hqreg
    rw [h.ringCurrent]
    rw [h.searchParameters] at hbuffer
    rw [h.qregCurrent] at hqreg
    exact hs.fromBuffer buffer hbuffer hqreg

end Looks

instance : Std.Refl Looks := ⟨Looks.refl⟩

instance : IsTrans Editor Looks := ⟨fun _ _ _ => Looks.trans⟩

theorem push_looks {token : Token} (h : token.Inert) (s : Editor) :
    Looks s (s.push token) := by
  unfold push
  split
  · exact
      { Looks.refl s with
        tokens := ⟨[token], rfl, by
          intro other hmem
          rw [List.mem_singleton.mp hmem]
          exact h⟩ }
  · exact Looks.refl s

theorem setSel_looks (anchor dot : Nat) (s : Editor) :
    Looks s (s.ssm (Document.setSel anchor dot)) := by
  refine
    { Looks.refl s with
      text := ?_
      history := ?_
      others := ?_ }
  · intro view
    by_cases hview : view = s.shown
    · subst hview
      simp only [ssm, Function.update_self]
      rfl
    · simp only [ssm, Function.update_of_ne hview]
  · intro view
    by_cases hview : view = s.shown
    · subst hview
      simp only [ssm, Function.update_self]
      rfl
    · simp only [ssm, Function.update_of_ne hview]
  · intro view hview
    simp only [ssm, Function.update_of_ne hview]
    rfl

theorem searchFailure_looks (s : Editor) : Looks s (searchFailure s) :=
  setSel_looks _ _ s

theorem setSearchState_looks (value : TecoInt) (s : Editor) :
    Looks s (setSearchState value s) :=
  { Looks.refl s with }

section

variable {Re : Type} (sci : Scintilla) (regexps : Regexps Re)

theorem selectRanges_looks (ranges : List (Nat × Nat)) (s : Editor) :
    Looks s (selectRanges sci ranges s) := by
  have hinert : (Token.ranges s.ranges).Inert := trivial
  have hpush := push_looks hinert s
  cases ranges with
  | nil => exact hpush
  | cons range rest =>
      have hsel := setSel_looks range.1 range.2 (s.push (.ranges s.ranges))
      exact hpush.trans (hsel.trans { Looks.refl _ with })

theorem selectMatch_looks (offset : Nat) (hit : Option Match) (s : Editor) :
    Looks s (selectMatch sci offset hit s) := by
  cases hit with
  | none => exact Looks.refl s
  | some hit => exact selectRanges_looks sci (getRanges offset hit) s

theorem ofExcept_looks {α : Type} (x : Except TecoError α) (s : Editor) :
    Reaches Looks (ofExcept x) s := by
  cases x with
  | ok a => exact Reaches.pure a
  | error err => exact Reaches.throw err

theorem doSearch_looks (re : Re) (fromPos toPos : Nat) (count : Int)
    (s : Editor) :
    Reaches Looks (doSearch sci regexps re fromPos toPos count) s := by
  unfold doSearch
  apply Reaches.getThen
  apply Reaches.bind (ofExcept_looks _ s)
  intro result t _
  apply Reaches.updateThen (selectMatch_looks sci fromPos result.2 t)
  exact Reaches.pure _

theorem editFromBuffer_ready (hs : Ready s) : editFromBuffer s = s := by
  unfold editFromBuffer
  split
  · next buffer hbuffer =>
      apply if_neg
      rintro ⟨hqreg, hring⟩
      exact hring (hs.fromBuffer buffer hbuffer hqreg)
  · rfl

/-- Without a range of buffers, only the current document is searched. -/
theorem searchOthers_ready (re : Re) (hs : Ready s) (count : Int) :
    searchOthers sci regexps re s.searchParameters count = pure count := by
  unfold searchOthers
  rw [hs.toBuffer]
  cases s.searchParameters.fromBuffer <;> rfl

theorem searchRegexp_looks (re : Re) (hs : Ready s) :
    Reaches Looks (searchRegexp sci regexps re) s := by
  unfold searchRegexp
  have hedit : Looks s (editFromBuffer s) := by
    rw [editFromBuffer_ready hs]
  apply Reaches.updateThen hedit
  apply Reaches.getThen
  apply Reaches.bind (doSearch_looks sci regexps re _ _ _ _)
  intro count t _
  rw [editFromBuffer_ready hs, searchOthers_ready sci regexps re hs]
  apply Reaches.bind (Reaches.pure count)
  intro count u _
  apply Reaches.updateThen (setSearchState_looks _ u)
  apply Reaches.ite
  · intro _
    exact Reaches.pure _
  · intro _
    exact Reaches.update (searchFailure_looks _)

theorem searchCompiled_looks (re : Option Re) (hs : Ready s) :
    Reaches Looks (searchCompiled sci regexps re) s := by
  cases re with
  | none => exact Reaches.update (searchFailure_looks s)
  | some re => exact searchRegexp_looks sci regexps re hs

end

/-!
## Moving the selection
-/

/-- Nothing has been recorded, and no `SCI_UNDO` token has been pushed. -/
structure Quiet (s t : Editor) : Prop extends Keeps s t where
  recorded : t.recorded = s.recorded
  deletions : t.deletions = s.deletions
  undoCount : undoCount t.tokens = undoCount s.tokens

namespace Quiet

@[refl] theorem refl (s : Editor) : Quiet s s :=
  { Keeps.refl s with recorded := rfl, deletions := rfl, undoCount := rfl }

theorem trans (h : Quiet s t) (h' : Quiet t u) : Quiet s u :=
  { h.toKeeps.trans h'.toKeeps with
    recorded := h'.recorded.trans h.recorded
    deletions := h'.deletions.trans h.deletions
    undoCount := h'.undoCount.trans h.undoCount }

theorem counted (h : Quiet s t) : Counted s t := by
  unfold Counted
  rw [h.undoCount, h.recorded]

theorem balanced (h : Quiet s t) (hrestores : Restores s t) :
    Balanced s t :=
  ⟨h.toKeeps, h.counted, DeletesInside.of_eq h.deletions, hrestores⟩

end Quiet

/-- Nothing has been recorded, and rubout brings the selection back. -/
structure Moves (s t : Editor) : Prop extends Quiet s t where
  restores : Restores s t

namespace Moves

@[refl] theorem refl (s : Editor) : Moves s s :=
  { Quiet.refl s with restores := Restores.refl s }

theorem trans (h : Moves s t) (h' : Moves t u) : Moves s u :=
  { h.toQuiet.trans h'.toQuiet with
    restores := h.restores.trans h.toKeeps h'.restores }

end Moves

instance : Std.Refl Moves := ⟨Moves.refl⟩

instance : IsTrans Editor Moves := ⟨fun _ _ _ => Moves.trans⟩

theorem undoCount_inert {new : List Token}
    (h : forall token, token ∈ new -> token.Inert) (tokens : List Token) :
    undoCount (new ++ tokens) = undoCount tokens := by
  unfold undoCount
  rw [List.count_append]
  have hnot : Token.undo ∉ new := fun hmem => (h _ hmem).ne_undo rfl
  rw [List.count_eq_zero_of_not_mem hnot, Nat.zero_add]

theorem Looks.near (h : Looks s t) : Near t s := by
  refine ⟨h.shown, ⟨?_, ?_⟩, h.others⟩
  · unfold Editor.document
    rw [h.shown]
    exact h.text s.shown
  · unfold Editor.document
    rw [h.shown]
    exact h.history s.shown

theorem Looks.quiet (h : Looks s t) : Quiet s t := by
  refine { h.toKeeps with
    recorded := h.recorded, deletions := h.deletions, undoCount := ?_ }
  rcases h.tokens with ⟨new, htokens, hinert⟩
  rw [htokens]
  exact undoCount_inert hinert s.tokens

/-- The selection as a token. -/
def selection (s : Editor) : Token :=
  .setSel s.document.anchor s.document.dot

theorem undoSsm_quiet {token : Token} (h : token ≠ .undo) (s : Editor) :
    Quiet s (s.undoSsm token) := by
  rcases undoSsm_eq token s with heq | heq
  · rw [heq]
    exact
      { push_keeps token s with
        recorded := push_recorded token s
        deletions := push_deletions token s
        undoCount := push_undoCount h }
  · rw [heq]

theorem selection_ne_undo (s : Editor) : s.selection ≠ .undo := by
  intro heq
  cases heq

/-- Setting the dot brings the document back if nothing but the selection has
changed. -/
theorem setSel_alike (h : Near u s) (anchor : Nat) :
    Alike (u.ssm (Document.setSel anchor s.document.dot)) s := by
  have hselect := Document.setSel_same h.text anchor
  apply Alike.of_near
  · refine ⟨h.shown, ?_, ?_⟩
    · rw [ssm_document]
      exact hselect.toSameText
    · intro view hview
      have hother : view ≠ u.shown := by
        rw [h.shown]
        exact hview
      rw [ssm_others _ hother]
      exact h.others view hview
  · rw [ssm_document]
    exact hselect

/-- Once the selection has been pushed, it may be moved. -/
theorem covers_of_looks (h : Looks (s.undoSsm s.selection) t) :
    Covers s t := by
  intro hundo
  rw [undoSsm_of_undoes hundo] at h
  rcases h.tokens with ⟨new, htokens, hinert⟩
  have hselection : Pushes s { s with tokens := s.selection :: s.tokens }
      [s.selection] := Pushes.singleton rfl trivial
  have hnew : Pushes { s with tokens := s.selection :: s.tokens } t new :=
    ⟨htokens, fun token hmem => (hinert token hmem).stays⟩
  refine ⟨new ++ [s.selection], hselection.append hnew, ?_⟩
  · intro u hu
    rw [runTokens_append]
    have hnear : Near t s :=
      ⟨h.near.shown, h.near.text, h.near.others⟩
    exact setSel_alike ((runTokens_inert hinert u).near.trans
      (hu.trans hnear)) s.document.anchor

theorem Quiet.of_looks (h : Looks (s.undoSsm s.selection) t) : Quiet s t :=
  (undoSsm_quiet s.selection_ne_undo s).trans h.quiet

theorem undoSsm_ready (token : Token) (hs : Ready s) :
    Ready (s.undoSsm token) := by
  rcases undoSsm_eq token s with heq | heq
  · rw [heq]
    constructor
    · rw [push_searchParameters]
      exact hs.toBuffer
    · intro buffer hbuffer hqreg
      rw [push_searchParameters] at hbuffer
      rw [(push_keeps token s).qregCurrent] at hqreg
      rw [push_ringCurrent]
      exact hs.fromBuffer buffer hbuffer hqreg
  · rw [heq]
    exact hs

/-!
## The search process
-/

section

variable {Re : Type} (sci : Scintilla) (regexps : Regexps Re)

/-- The search process after the selection has been pushed. -/
theorem searchProcess_looks (str : Bytes) (hs : Ready s) :
    Reaches Looks (do
      modify (fun s =>
        setSearchState (tecoBool false) (s.push (.searchState s.searchState)))
      let re <- ofExcept (regexps.compile str)
      searchCompiled sci regexps re) s := by
  have hinert : (Token.searchState s.searchState).Inert := trivial
  have hpush := push_looks hinert s
  have hstate := hpush.trans (setSearchState_looks (tecoBool false) _)
  apply Reaches.updateThen hstate
  apply Reaches.bind (ofExcept_looks _ _)
  intro re t hre
  have hready : Ready t := by
    have hlooks := ofExcept_looks (regexps.compile str)
      (setSearchState (tecoBool false)
        (s.push (.searchState s.searchState)))
    exact (hlooks.of_ok hre).ready (hstate.ready hs)
  exact searchCompiled_looks sci regexps re hready

/-- A search process fails at once, or it pushes the selection first. -/
theorem searchProcess_cases (str : Bytes) (hs : Ready s) :
    (exists err, searchProcess sci regexps str s = .error err s) ∨
      Looks (s.undoSsm s.selection)
        (finalState (searchProcess sci regexps str s)) := by
  unfold searchProcess
  cases hvalid : validatePattern regexps str with
  | error err => exact Or.inl ⟨err, rfl⟩
  | ok _ =>
      apply Or.inr
      exact searchProcess_looks sci regexps str
        (undoSsm_ready s.selection hs)

/-- A search in the current document moves the selection. -/
def Searches (s t : Editor) : Prop := Ready s -> Moves s t ∧ Ready t

instance : Std.Refl Searches := ⟨fun s hs => ⟨Moves.refl s, hs⟩⟩

instance : IsTrans Editor Searches where
  trans _ _ _ h h' hs := by
    rcases h hs with ⟨hmoves, ht⟩
    rcases h' ht with ⟨hmoves', hu⟩
    exact ⟨hmoves.trans hmoves', hu⟩

theorem searchProcess_searches (str : Bytes) (s : Editor) :
    Reaches Searches (searchProcess sci regexps str) s := by
  intro hs
  rcases searchProcess_cases sci regexps str hs with ⟨err, herr⟩ | hlooks
  · rw [herr]
    exact ⟨Moves.refl s, hs⟩
  · refine ⟨?_, hlooks.ready (undoSsm_ready s.selection hs)⟩
    exact
      { Quiet.of_looks hlooks with
        restores := (covers_of_looks hlooks).restores }

theorem searchProcess_covers {str : Bytes} (hs : Ready s)
    (h : searchProcess sci regexps str s = .ok () t) : Covers s t := by
  rcases searchProcess_cases sci regexps str hs with ⟨err, herr⟩ | hlooks
  · rw [herr] at h
    cases h
  · rw [h] at hlooks
    exact covers_of_looks hlooks

end

/-!
## The end of the pattern
-/

theorem ssm_quiet (f : Document -> Document) (s : Editor) :
    Quiet s (s.ssm f) := { Quiet.refl s with }

theorem setString_quiet (reg : QReg) (str : Bytes) (s : Editor) :
    Quiet s (s.setString reg str) := by
  have hpush : Quiet s (s.push (.string reg (s.documents (.qreg reg)))) :=
    { push_keeps _ s with
      recorded := push_recorded _ s
      deletions := push_deletions _ s
      undoCount := push_undoCount (fun heq => nomatch heq) }
  unfold setString
  dsimp only
  split
  · exact hpush.trans { Quiet.refl _ with }
  · exact { Quiet.refl s with }

/-- The old document of a register comes back. -/
theorem setString_restores {reg : QReg} (hreg : reg.mustUndo = true)
    (str : Bytes) (s : Editor) : Restores s (s.setString reg str) := by
  intro hundo
  have henabled := (Bool.and_eq_true_iff.mp hundo).2
  refine ⟨[.string reg (s.documents (.qreg reg))], ?_, ?_⟩
  · apply Pushes.singleton
    · unfold setString
      rw [if_pos hreg]
      exact push_tokens henabled
    · trivial
  · refine ⟨(setString_quiet reg str s).shown, ?_⟩
    intro view
    have hdocuments : (runTokens [.string reg (s.documents (.qreg reg))]
        (s.setString reg str)).documents = s.documents := by
      unfold setString
      rw [if_pos hreg]
      change Function.update (Function.update _ _ _) _ _ = _
      rw [Function.update_idem, push_documents, Function.update_eq_self]
    rw [hdocuments]

theorem setAnchor_alike (anchor : Nat) (s : Editor) :
    Alike (s.ssm (Document.setAnchor anchor)) s := by
  have hsame := Document.setAnchor_same anchor s.document
  apply Alike.of_near
  · refine ⟨rfl, ?_, ?_⟩
    · rw [ssm_document]
      exact hsame.toSameText
    · intro view hview
      rw [ssm_others _ hview]
  · rw [ssm_document]
    exact hsame

theorem push_moves {token : Token} (h : token.Inert) (s : Editor) :
    Moves s (s.push token) := by
  have hlooks := push_looks h s
  refine { hlooks.quiet with restores := ?_ }
  intro hundo
  have henabled := (Bool.and_eq_true_iff.mp hundo).2
  refine ⟨[token], Pushes.singleton (push_tokens henabled) h.stays, ?_⟩
  have hsame : Alike (s.push token) s := by
    refine ⟨hlooks.shown, ?_⟩
    intro view
    rw [push_documents]
  exact (runToken_inert h _).trans hsame

theorem undoSsm_restores {token : Token} (hstay : token.Stays)
    (h : Alike (s.runToken token) s) : Restores s (s.undoSsm token) := by
  intro hundo
  rw [undoSsm_of_undoes hundo]
  refine ⟨[token], Pushes.singleton rfl hstay, ?_⟩
  have hsame : Alike { s with tokens := token :: s.tokens } s :=
    ⟨rfl, fun view => Document.Same.refl _⟩
  exact (hsame.runToken token).trans h

/-- Storing the pattern preserves the dot, also on rubout. -/
theorem setSearchString_moves (str : Bytes) (s : Editor) :
    Moves s (setSearchString str s) := by
  let token : Token := .setAnchor s.document.anchor
  have hne : token ≠ .undo := fun heq => nomatch heq
  have hpush : Moves s (s.undoSsm token) :=
    { undoSsm_quiet hne s with
      restores := by
        apply undoSsm_restores
        · trivial
        · exact (setAnchor_alike s.document.anchor s) }
  have hset : Moves (s.undoSsm token)
      ((s.undoSsm token).setString .search str) :=
    { setString_quiet .search str _ with
      restores := setString_restores rfl str _ }
  have hanchor : Moves ((s.undoSsm token).setString .search str)
      (setSearchString str s) :=
    { ssm_quiet _ _ with
      restores := Restores.of_alike rfl (setAnchor_alike _ _) }
  exact (hpush.trans hset).trans hanchor

section

variable {Re : Type} (sci : Scintilla) (regexps : Regexps Re)

theorem pushState_moves (modifierColon : Nat) (s : Editor) :
    Moves s (pushState modifierColon s) := by
  unfold pushState
  split
  · exact
      { Quiet.refl s with
        restores := Restores.of_alike rfl
          ⟨rfl, fun _ => Document.Same.refl _⟩ }
  · exact Moves.refl s

theorem storePattern_searches (str : Bytes) (hs : Ready s) :
    Reaches Moves (storePattern sci regexps str) s := by
  unfold storePattern
  apply Reaches.getThen
  apply Reaches.ite
  · intro _
    exact Reaches.update (setSearchString_moves str s)
  · intro _
    exact (searchProcess_searches sci regexps _ s hs).1

theorem searchDone_moves (str : Bytes) (modifierColon : Nat) (hs : Ready s) :
    Reaches Moves (searchDone sci regexps str modifierColon) s := by
  apply Reaches.bind (storePattern_searches sci regexps str hs)
  intro _ t _
  exact Reaches.update (pushState_moves modifierColon t)

theorem processPattern_searches (str : Bytes) (s : Editor) :
    Reaches Searches (processPattern sci regexps str) s := by
  unfold processPattern
  apply Reaches.ite
  · intro _
    exact searchProcess_searches sci regexps str s
  · intro _
    exact Reaches.pure ()

/-- The complete pattern is searched for in any case, here or at the end of the
pattern, where the stored one is used instead of an empty one. -/
theorem finish_covers {str : Bytes} {modifierColon : Nat} (hs : Ready s)
    (h : (do
      processPattern sci regexps str
      searchDone sci regexps str modifierColon) s = .ok () t) :
    Covers s t := by
  by_cases hstr : str ≠ []
  · unfold processPattern at h
    rw [if_pos hstr] at h
    rcases ok_of_bind h with ⟨_, u, hprocess, hdone⟩
    have hcovers := searchProcess_covers sci regexps hs hprocess
    have hmoves := (searchProcess_searches sci regexps str s).of_ok hprocess hs
    have hdone := (searchDone_moves sci regexps str modifierColon
      hmoves.2).of_ok hdone
    exact hcovers.rewinds hmoves.1.toKeeps hdone.restores.rewinds
  · unfold processPattern searchDone storePattern at h
    rw [if_neg hstr] at h
    rcases ok_of_bind h with ⟨_, u, hpure, hdone⟩
    cases hpure
    rcases ok_of_bind hdone with ⟨_, u, hstore, hstate⟩
    rw [run_get_bind, if_neg hstr] at hstore
    cases hstate
    have hcovers := searchProcess_covers sci regexps hs hstore
    have hmoves :=
      (searchProcess_searches sci regexps _ s).of_ok hstore hs
    exact hcovers.rewinds hmoves.1.toKeeps
      (pushState_moves modifierColon u).restores.rewinds

theorem setSearchParameters_ready (range : Int × Int × Int) (s : Editor) :
    Ready (setSearchParameters range s) := by
  refine ⟨rfl, ?_⟩
  intro buffer hbuffer hqreg
  change (if s.qregCurrent = none then some s.ringCurrent else none) =
    some buffer at hbuffer
  have hnone : s.qregCurrent = none := hqreg
  rw [if_pos hnone] at hbuffer
  exact Option.some.inj hbuffer

theorem searchInitial_moves (args : Arguments) (s : Editor) :
    Reaches Moves (searchInitial sci args) s := by
  have hinert : (Token.searchParameters s.searchParameters).Inert := trivial
  have hfirst : Reaches Moves (modify (fun s : Editor =>
      s.push (.searchParameters s.searchParameters)) : Command Unit) s :=
    push_moves hinert s
  apply Reaches.bind hfirst
  intro _ t _
  apply Reaches.getThen
  apply Reaches.ite
  · intro _
    exact Reaches.throw _
  · intro _
    apply Reaches.update
    exact
      { Quiet.refl _ with
        restores := Restores.of_alike rfl
          ⟨rfl, fun _ => Document.Same.refl _⟩ }

theorem searchInitial_ready {args : Arguments}
    (h : searchInitial sci args s = .ok () t) : Ready t := by
  unfold searchInitial at h
  rw [run_modify_bind, run_get_bind] at h
  split at h
  · cases h
  · cases h
    exact setSearchParameters_ready _ _

/-- A search moves the selection, with or without an error. -/
theorem searching_moves (args : Arguments) (typed : List Bytes) (str : Bytes)
    (modifierColon : Nat) (s : Editor) :
    Reaches Moves (searching sci regexps args typed str modifierColon) s := by
  apply Reaches.bind (searchInitial_moves sci args s)
  intro _ t ht
  have hready := searchInitial_ready sci ht
  have htyped := Reaches.forM typed
    (fun str t => searchProcess_searches sci regexps str t) t
  apply Reaches.bind (htyped hready).1
  intro _ u hu
  have hready' := (htyped.of_ok hu hready).2
  have hpattern := processPattern_searches sci regexps str u
  apply Reaches.bind (hpattern hready').1
  intro _ v hv
  exact searchDone_moves sci regexps str modifierColon
    (hpattern.of_ok hv hready').2

/-- Whatever happens to the selection after a search, rubout brings it back. -/
theorem searching_covers {args : Arguments} {typed : List Bytes} {str : Bytes}
    {modifierColon : Nat}
    (h : searching sci regexps args typed str modifierColon s = .ok () t) :
    Covers s t := by
  rcases ok_of_bind h with ⟨_, u, hinitial, hrest⟩
  rcases ok_of_bind hrest with ⟨_, v, htyped, hfinish⟩
  have hmoves := (searchInitial_moves sci args s).of_ok hinitial
  have hready := searchInitial_ready sci hinitial
  have hforM := (Reaches.forM typed
    (fun str t => searchProcess_searches sci regexps str t) u).of_ok
      htyped hready
  have hcovers := finish_covers sci regexps hforM.2 hfinish
  have hsofar := hmoves.trans hforM.1
  exact hsofar.restores.covers hsofar.toKeeps hcovers

end

end Editor

end Editing
end SciTECO
