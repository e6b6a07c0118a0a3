import SciTECO.Editing.Balance

/-!
# Undo actions of search commands

After a successful search, a command deletes the match or the text up to it.
Whether it is balanced depends on the selection which the search has left.
-/

namespace SciTECO
namespace Editing

open EStateM Editor

/-- A step is balanced, apart from the selection, exactly under a condition. -/
structure BalancedWhen (s t : Editor) (p : Prop) : Prop where
  keeps : Keeps s t
  inside : p -> DeletesInside s t
  counted : p -> Counted s t
  rewinds : p -> Rewinds s t
  condition : Counted s t -> DeletesInside s t -> p

/-- What comes before and after such a step makes no difference. -/
theorem BalancedWhen.balanced_iff {s t u : Editor} {p : Prop}
    (h : BalancedWhen t u p) (hquiet : Quiet s t) (hcovers : Covers s t) :
    Balanced s u <-> p := by
  constructor
  · intro hbalanced
    apply h.condition
    · exact hquiet.counted.rest hquiet.toKeeps hbalanced.counted
    · rcases hbalanced.deletesInside with ⟨new, hnew, hinside⟩
      refine ⟨new, ?_, hinside⟩
      rw [hnew, hquiet.deletions]
  · intro hp
    have hinside : DeletesInside s t := DeletesInside.of_eq hquiet.deletions
    exact
      { keeps := hquiet.toKeeps.trans h.keeps
        counted := hquiet.counted.trans hquiet.toKeeps (h.counted hp)
        deletesInside := hinside.trans (h.inside hp)
        restores := (hcovers.rewinds hquiet.toKeeps (h.rewinds hp)).restores }

/-- A step that is balanced apart from the selection and deletes nothing. -/
structure Inserts (s t : Editor) : Prop extends Keeps s t where
  counted : Counted s t
  deletions : t.deletions = s.deletions
  rewinds : Rewinds s t

namespace Inserts

variable {s t u : Editor}

@[refl] theorem refl (s : Editor) : Inserts s s :=
  { Keeps.refl s with
    counted := rfl
    deletions := rfl
    rewinds := (Restores.refl s).rewinds }

theorem trans (h : Inserts s t) (h' : Inserts t u) : Inserts s u :=
  { h.toKeeps.trans h'.toKeeps with
    counted := h.counted.trans h.toKeeps h'.counted
    deletions := h'.deletions.trans h.deletions
    rewinds := h.rewinds.trans h.toKeeps h'.rewinds }

theorem of_quiet (h : Quiet s t) (hrestores : Restores s t) :
    Inserts s t :=
  { h.toKeeps with
    counted := h.counted
    deletions := h.deletions
    rewinds := hrestores.rewinds }

end Inserts

instance : Std.Refl Inserts := ⟨Inserts.refl⟩

instance : IsTrans Editor Inserts := ⟨fun _ _ _ => Inserts.trans⟩

theorem BalancedWhen.inserts {s t u : Editor} {p : Prop}
    (h : BalancedWhen s t p) (h' : Inserts t u) : BalancedWhen s u p := by
  refine
    { keeps := h.keeps.trans h'.toKeeps
      inside := ?_
      counted := fun hp => (h.counted hp).trans h.keeps h'.counted
      rewinds := fun hp => (h.rewinds hp).trans h.keeps h'.rewinds
      condition := ?_ }
  · intro hp
    rcases h.inside hp with ⟨new, hnew, hinside⟩
    refine ⟨new, ?_, hinside⟩
    rw [h'.deletions, hnew]
  · intro hcounted hinside
    apply h.condition
    · exact h'.counted.start h.keeps hcounted
    · rcases hinside with ⟨new, hnew, hall⟩
      refine ⟨new, ?_, hall⟩
      rw [<- h'.deletions, hnew]

/-!
## Deleting up to the match
-/

section

variable {Re : Type} (sci : Scintilla) (regexps : Regexps Re)
  {s t : Editor}

/-- `FK` deletes a range inside the document: the match does not begin before
the dot of the search if it ends behind it. -/
def KillMeets (s : Editor) : Prop :=
  if s.searchParameters.dot < s.document.dot then
    s.searchParameters.dot ≤ s.document.anchor
  else s.searchParameters.dot ≤ s.document.text.length

instance (s : Editor) : Decidable (KillMeets s) := by
  unfold KillMeets
  infer_instance

/-- The state after a kill in either direction: the action is recorded if the
range is not empty, and `undone` tells whether it has a token. -/
theorem kill_balancedWhen {start len : Int} {undone : Bool} {p : Prop}
    (hkeeps : Keeps s t)
    (hrecorded : t.recorded =
      s.recorded + (decide (Deletable s start len)).toNat)
    (hcount : undoCount t.tokens =
      undoCount s.tokens + (if s.undoes then undone.toNat else 0))
    (hdeletions : t.deletions =
      { start := start, len := len
        documentLength := s.document.text.length } :: s.deletions)
    (hp : p <-> 0 ≤ start ∧ 0 ≤ len ∧
      start + len ≤ s.document.text.length)
    (hundone : undone = true <-> len ≠ 0)
    (hrewinds : p -> Rewinds s t) : BalancedWhen s t p := by
  have hchanges : Changes s t (decide (Deletable s start len)) undone :=
    { hkeeps with recorded := hrecorded, undoCount := hcount }
  refine
    { keeps := hkeeps
      inside := fun h => DeletesInside.of_cons hdeletions (hp.mp h)
      counted := ?_
      rewinds := hrewinds
      condition := fun _ hinside => hp.mpr (hinside.inside hdeletions) }
  intro h
  rw [hchanges.counted_iff]
  intro _
  have hrange := hp.mp h
  rw [Bool.eq_iff_iff, decide_eq_true_iff, hundone]
  unfold Deletable
  omega

/-- The state before the deletion forwards. -/
def beforeMatch (s : Editor) : Editor :=
  s.ssm (Document.gotoPos s.document.anchor)

theorem beforeMatch_document (s : Editor) :
    (beforeMatch s).document = s.document.gotoPos s.document.anchor :=
  ssm_document _ s

/-- The tokens of a deletion forwards. -/
def forwardTokens (s : Editor) : List Token :=
  if s.undoes then
    if s.searchParameters.dot ≠ s.document.anchor then
      .undo :: .gotoPos s.document.dot :: s.tokens
    else .gotoPos s.document.dot :: s.tokens
  else s.tokens

/-- The whole state after a deletion forwards. -/
theorem killForwards_eq (s : Editor) :
    killForwards sci s =
      { (beforeMatch s).ssm (Document.deleteRange s.searchParameters.dot
          (s.document.anchor - s.searchParameters.dot : Int)) with
        tokens := forwardTokens s
        ranges := (killForwards sci s).ranges
        deletions :=
          { start := s.searchParameters.dot
            len := s.document.anchor - s.searchParameters.dot
            documentLength := s.document.text.length } :: s.deletions } := by
  have hlength : (beforeMatch s).document.text.length =
      s.document.text.length := by
    rw [beforeMatch_document]
    rfl
  rw [<- hlength]
  unfold killForwards forwardTokens
  dsimp only
  rw [undoSsm_def (.gotoPos s.document.dot) s]
  by_cases hdot : s.searchParameters.dot ≠ s.document.anchor
  · have hkeeps : Keeps s (deleteRange s.searchParameters.dot
        (s.document.anchor - s.searchParameters.dot : Int)
        (({ s with
          tokens :=
            if s.undoes then .gotoPos s.document.dot :: s.tokens
            else s.tokens } : Editor).ssm
              (Document.gotoPos s.document.anchor))) := ⟨rfl, rfl, rfl⟩
    rw [if_pos hdot, if_pos hdot, undoSsm_keeps hkeeps]
    cases s.undoes <;> rfl
  · rw [if_neg hdot, if_neg hdot]
    rfl

theorem killForwards_keeps (s : Editor) : Keeps s (killForwards sci s) := by
  rw [killForwards_eq]
  exact ⟨rfl, rfl, rfl⟩

theorem killForwards_document (s : Editor) :
    (killForwards sci s).document =
      (s.document.gotoPos s.document.anchor).deleteRange
        s.searchParameters.dot
          (s.document.anchor - s.searchParameters.dot : Int) := by
  rw [killForwards_eq]
  rw [<- beforeMatch_document]
  exact ssm_document (Document.deleteRange s.searchParameters.dot
    (s.document.anchor - s.searchParameters.dot : Int)) (beforeMatch s)

theorem killForwards_others {view : View} (h : view ≠ s.shown) :
    (killForwards sci s).documents view = s.documents view := by
  have hother : view ≠ (beforeMatch s).shown := h
  rw [killForwards_eq]
  exact (ssm_others _ hother).trans (ssm_others _ h)

/-- A kill is one undo action. -/
theorem searchKill_forwards
    (h : s.searchParameters.dot < s.document.dot) :
    searchKill sci s =
      { killForwards sci s with
        recorded := s.recorded +
          (decide (Deletable s s.searchParameters.dot
            (s.document.anchor - s.searchParameters.dot))).toNat } := by
  have hrecorded : (killForwards sci s).recorded = s.recorded := by
    rw [killForwards_eq]
    rfl
  unfold searchKill undoAction
  dsimp only
  rw [if_pos h, killForwards_document, Document.deleteRange_history,
    hrecorded]
  by_cases hdelete : Deletable s s.searchParameters.dot
      (s.document.anchor - s.searchParameters.dot)
  · have hrange : 0 ≤ (s.searchParameters.dot : Int) ∧
        0 < (s.document.anchor - s.searchParameters.dot : Int) ∧
          s.searchParameters.dot +
            (s.document.anchor - s.searchParameters.dot : Int) ≤
              (s.document.gotoPos s.document.anchor).text.length := hdelete
    rw [if_pos hrange, decide_eq_true hdelete]
    exact congrArg (fun recorded => { killForwards sci s with
      recorded := recorded }) (if_pos (Nat.lt_succ_self _))
  · have hrange : ¬ (0 ≤ (s.searchParameters.dot : Int) ∧
        0 < (s.document.anchor - s.searchParameters.dot : Int) ∧
          s.searchParameters.dot +
            (s.document.anchor - s.searchParameters.dot : Int) ≤
              (s.document.gotoPos s.document.anchor).text.length) := hdelete
    rw [if_neg hrange, decide_eq_false hdelete]
    exact congrArg (fun recorded => { killForwards sci s with
      recorded := recorded }) (if_neg (Nat.lt_irrefl _))

theorem forwardTokens_count (s : Editor) :
    undoCount (forwardTokens s) = undoCount s.tokens +
      (if s.undoes then
        (decide (s.searchParameters.dot ≠ s.document.anchor)).toNat
      else 0) := by
  have hgoto : forall tokens,
      undoCount (.gotoPos s.document.dot :: tokens) = undoCount tokens :=
    undoCount_cons (fun heq => nomatch heq)
  unfold forwardTokens
  cases s.undoes with
  | true =>
      rw [if_pos rfl, if_pos rfl]
      by_cases h : s.searchParameters.dot ≠ s.document.anchor
      · rw [if_pos h, decide_eq_true h]
        unfold undoCount at hgoto ⊢
        rw [List.count_cons_self, hgoto]
        rfl
      · rw [if_neg h, decide_eq_false h]
        exact hgoto s.tokens
  | false => rfl

theorem searchKill_forwards_restores
    (h : s.searchParameters.dot < s.document.dot)
    (hle : s.searchParameters.dot ≤ s.document.anchor) :
    Restores s (searchKill sci s) := by
  have hkeeps : Keeps s (searchKill sci s) := by
    have hforwards := killForwards_keeps sci s
    rw [searchKill_forwards sci h]
    exact ⟨hforwards.shown, hforwards.qregCurrent, hforwards.undoEnabled⟩
  have htokens : (searchKill sci s).tokens = forwardTokens s := by
    rw [searchKill_forwards sci h, killForwards_eq]
  have hdocument : (searchKill sci s).document =
      (killForwards sci s).document := by
    rw [searchKill_forwards sci h]
    rfl
  have hothers : forall view, view ≠ s.shown ->
      (searchKill sci s).documents view = s.documents view := by
    intro view hview
    rw [searchKill_forwards sci h]
    exact killForwards_others sci hview
  have hanchor := s.document.anchor_le
  by_cases hdot : s.searchParameters.dot ≠ s.document.anchor
  · have hedits : Edits s (searchKill sci s) := by
      refine { hkeeps with text := ?_, others := hothers }
      rw [hdocument, killForwards_document]
      have hrange : 0 ≤ (s.searchParameters.dot : Int) ∧
          0 < (s.document.anchor - s.searchParameters.dot : Int) ∧
            s.searchParameters.dot +
              (s.document.anchor - s.searchParameters.dot : Int) ≤
                (s.document.gotoPos s.document.anchor).text.length := by
        change _ ∧ _ ∧ _ ≤ ((s.document.text.length : Nat) : Int)
        omega
      have hundo := Document.undo_deleteRange hrange
      exact ⟨hundo.text, hundo.history⟩
    apply hedits.restores
    intro hundo
    rw [htokens]
    unfold forwardTokens
    rw [if_pos hundo, if_pos hdot]
  · intro hundo
    refine ⟨[.gotoPos s.document.dot], ?_, ?_⟩
    · apply Pushes.singleton
      · rw [htokens]
        unfold forwardTokens
        rw [if_pos hundo, if_neg hdot]
      · trivial
    · have hnear : Near (searchKill sci s) s := by
        refine ⟨hkeeps.shown, ?_, ?_⟩
        · rw [hdocument, killForwards_document,
            Document.deleteRange_skip (by omega)]
          exact ⟨rfl, rfl⟩
        · intro view hview
          rw [hothers view hview]
      exact setSel_alike hnear s.document.dot

theorem undo_count (s : Editor) :
    undoCount (if s.undoes then .undo :: s.tokens else s.tokens) =
      undoCount s.tokens + (if s.undoes then true.toNat else 0) := by
  cases s.undoes with
  | true => exact List.count_cons_self
  | false => rfl

/-- The tokens of a deletion backwards. -/
def backwardTokens (s : Editor) : List Token :=
  if s.searchParameters.dot ≠ s.document.dot then
    if s.undoes then .undo :: s.tokens else s.tokens
  else s.tokens

theorem backwardTokens_count (s : Editor) :
    undoCount (backwardTokens s) =
      undoCount s.tokens + (if s.undoes then
        (decide (s.searchParameters.dot ≠ s.document.dot)).toNat
      else 0) := by
  unfold backwardTokens
  by_cases hdot : s.searchParameters.dot ≠ s.document.dot
  · rw [if_pos hdot, decide_eq_true hdot]
    exact undo_count s
  · rw [if_neg hdot, decide_eq_false hdot]
    cases s.undoes <;> rfl

/-- The whole state after a deletion backwards. -/
theorem searchKill_backwards
    (h : ¬ s.searchParameters.dot < s.document.dot) :
    searchKill sci s =
      { s.undoAction (Editor.deleteRange s.document.dot
          (s.searchParameters.dot - s.document.dot : Int)) with
        tokens := backwardTokens s } := by
  have hkeeps : Keeps s (s.deleteRange s.document.dot
      (s.searchParameters.dot - s.document.dot : Int)) := ⟨rfl, rfl, rfl⟩
  unfold searchKill undoAction killBackwards backwardTokens
  dsimp only
  rw [if_neg h, undoSsm_keeps hkeeps]
  by_cases hdot : s.searchParameters.dot ≠ s.document.dot
  · rw [if_pos hdot, if_pos hdot]
    rfl
  · rw [if_neg hdot, if_neg hdot]
    rfl

theorem searchKill_backwards_rewinds
    (h : ¬ s.searchParameters.dot < s.document.dot)
    (hle : s.searchParameters.dot ≤ s.document.text.length) :
    Rewinds s (searchKill sci s) := by
  have heq := searchKill_backwards sci h
  rw [undoAction_deleteRange] at heq
  by_cases hdot : s.searchParameters.dot ≠ s.document.dot
  · have hdelete : Deletable s s.document.dot
        (s.searchParameters.dot - s.document.dot : Int) := by
      unfold Deletable
      omega
    have hedits : Edits s (searchKill sci s) := by
      rw [heq]
      exact deleteRange_edits hdelete rfl ⟨rfl, rfl, rfl⟩
    apply hedits.rewinds
    intro hundo
    rw [heq]
    unfold backwardTokens
    rw [if_pos hdot, if_pos hundo]
  · have hskip : s.document.deleteRange s.document.dot
        (s.searchParameters.dot - s.document.dot : Int) = s.document :=
      Document.deleteRange_skip (by omega)
    have hdocuments : (s.ssm (Document.deleteRange s.document.dot
        (s.searchParameters.dot - s.document.dot : Int))).documents =
          s.documents := by
      unfold ssm
      rw [hskip]
      exact Function.update_eq_self _ _
    apply Restores.rewinds
    apply Restores.of_alike
    · rw [heq]
      exact if_neg hdot
    · rw [heq]
      refine ⟨rfl, ?_⟩
      intro view
      change Document.Same ((s.ssm _).documents view) _
      rw [hdocuments]

theorem searchKill_balancedWhen (s : Editor) :
    BalancedWhen s (searchKill sci s) (KillMeets s) := by
  have hanchor := s.document.anchor_le
  have hdot := s.document.dot_le
  by_cases h : s.searchParameters.dot < s.document.dot
  · have hmeets : KillMeets s <->
        s.searchParameters.dot ≤ s.document.anchor := by
      unfold KillMeets
      rw [if_pos h]
    have heq := searchKill_forwards sci h
    have htokens : (searchKill sci s).tokens = forwardTokens s := by
      rw [heq, killForwards_eq]
    have hkeeps : Keeps s (searchKill sci s) := by
      have hforwards := killForwards_keeps sci s
      rw [heq]
      exact ⟨hforwards.shown, hforwards.qregCurrent, hforwards.undoEnabled⟩
    apply kill_balancedWhen hkeeps
    · rw [heq]
    · rw [htokens]
      exact forwardTokens_count s
    · rw [heq, killForwards_eq]
    · rw [hmeets]
      omega
    · rw [decide_eq_true_iff]
      omega
    · intro hle
      exact (searchKill_forwards_restores sci h (hmeets.mp hle)).rewinds
  · have hmeets : KillMeets s <->
        s.searchParameters.dot ≤ s.document.text.length := by
      unfold KillMeets
      rw [if_neg h]
    have heq := searchKill_backwards sci h
    have hkeeps : Keeps s (searchKill sci s) := by
      rw [heq]
      exact ⟨rfl, rfl, rfl⟩
    apply kill_balancedWhen hkeeps
    · rw [heq, undoAction_deleteRange]
    · rw [heq]
      exact backwardTokens_count s
    · rw [heq, undoAction_deleteRange]
    · rw [hmeets]
      omega
    · rw [decide_eq_true_iff]
      omega
    · intro hle
      exact searchKill_backwards_rewinds sci h (hmeets.mp hle)

/-!
## Deleting the match
-/

/-- `FD` deletes something, or it pushes no tokens. -/
def DeleteMeets (s : Editor) : Prop :=
  s.undoes = true -> s.document.anchor ≠ s.document.dot

instance (s : Editor) : Decidable (DeleteMeets s) := by
  unfold DeleteMeets
  infer_instance

theorem searchDelete_balancedWhen (s : Editor) :
    BalancedWhen s (searchDelete s) (DeleteMeets s) := by
  have hanchor := s.document.anchor_le
  have hdot := s.document.dot_le
  let start : Int := min s.document.anchor s.document.dot
  let len : Int := (max s.document.anchor s.document.dot : Nat) -
    (min s.document.anchor s.document.dot : Nat)
  have hselection : Deletable s start len <->
      s.document.anchor ≠ s.document.dot := by
    change 0 ≤ start ∧ 0 < len ∧ start + len ≤ _ <-> _
    omega
  have heq : searchDelete s =
      { s.undoAction (Editor.deleteRange start len) with
        tokens := if s.undoes then .undo :: s.tokens else s.tokens } := by
    have hkeeps : Keeps s (s.undoAction (Editor.deleteRange start len)) :=
      ⟨rfl, rfl, rfl⟩
    have haction : s.undoAction Editor.replaceSel =
        s.undoAction (Editor.deleteRange start len) := rfl
    unfold searchDelete
    rw [haction, undoSsm_keeps hkeeps]
    rfl
  rw [undoAction_deleteRange] at heq
  have hkeeps : Keeps s (searchDelete s) := by
    rw [heq]
    exact ⟨rfl, rfl, rfl⟩
  have hchanges : Changes s (searchDelete s)
      (decide (Deletable s start len)) true := by
    refine { hkeeps with recorded := ?_, undoCount := ?_ }
    · rw [heq]
    · rw [heq]
      exact undo_count s
  have hcounted : Counted s (searchDelete s) <-> DeleteMeets s := by
    rw [hchanges.counted_iff, decide_eq_true_iff, hselection]
    rfl
  have hinside : DeletesInside s (searchDelete s) := by
    have hdeletions : (searchDelete s).deletions =
        { start := start, len := len
          documentLength := s.document.text.length } :: s.deletions := by
      rw [heq]
    apply DeletesInside.of_cons hdeletions
    change 0 ≤ start ∧ 0 ≤ len ∧
      start + len ≤ (s.document.text.length : Nat)
    omega
  refine
    { keeps := hkeeps
      inside := fun _ => hinside
      counted := hcounted.mpr
      rewinds := ?_
      condition := fun h _ => hcounted.mp h }
  intro hmeets hundo
  have hdelete := hselection.mpr (hmeets hundo)
  have hedits : Edits s (searchDelete s) := by
    rw [heq]
    exact deleteRange_edits hdelete rfl ⟨rfl, rfl, rfl⟩
  have htokens : s.undoes = true ->
      (searchDelete s).tokens = .undo :: s.tokens := by
    intro _
    rw [heq]
    exact if_pos hundo
  exact hedits.rewinds htokens hundo

/-!
## Replacements
-/

theorem searchDelete_searchState (s : Editor) :
    (searchDelete s).searchState = s.searchState := by
  unfold searchDelete
  rw [undoSsm_def]
  rfl

/-- Every chunk of a replacement is one action with one token. -/
theorem insertProcess_inserts (newChars : { str : Bytes // str ≠ [] })
    (s : Editor) : Inserts s (insertProcess newChars s) := by
  let str := newChars.val
  have hdocument : (s.ssm (Document.addText str)).document =
      s.document.addText str := ssm_document _ s
  have haction : s.undoAction (Editor.ssm (Document.addText str)) =
      { s.ssm (Document.addText str) with recorded := s.recorded + 1 } := by
    unfold undoAction
    dsimp only
    rw [hdocument, Document.addText_history newChars.property,
      if_pos (Nat.lt_succ_self _)]
    rfl
  have heq : insertProcess newChars s =
      { s.ssm (Document.addText str) with
        tokens := if s.undoes then .undo :: s.tokens else s.tokens
        recorded := s.recorded + 1 } := by
    have hkeeps : Keeps s
        { s.ssm (Document.addText str) with recorded := s.recorded + 1 } :=
      ⟨rfl, rfl, rfl⟩
    unfold insertProcess
    rw [haction, undoSsm_keeps hkeeps]
    rfl
  have hkeeps : Keeps s (insertProcess newChars s) := by
    rw [heq]
    exact ⟨rfl, rfl, rfl⟩
  have hchanges : Changes s (insertProcess newChars s) true true := by
    refine { hkeeps with recorded := ?_, undoCount := ?_ }
    · rw [heq]
      rfl
    · rw [heq]
      exact undo_count s
  have hedits : Edits s (insertProcess newChars s) := by
    refine { hkeeps with text := ?_, others := ?_ }
    · have hresult : (insertProcess newChars s).document =
          s.document.addText str := by
        rw [heq]
        exact hdocument
      rw [hresult]
      exact Document.undo_addText newChars.property
    · intro view hview
      rw [heq]
      exact ssm_others _ hview
  refine
    { hkeeps with
      counted := hchanges.counted_iff.mpr (fun _ => rfl)
      deletions := ?_
      rewinds := ?_ }
  · rw [heq]
    rfl
  · apply hedits.rewinds
    intro hundo
    rw [heq]
    exact if_pos hundo

theorem replaceInsert_inserts (chunks : List { str : Bytes // str ≠ [] })
    (s : Editor) : Reaches Inserts (replaceInsert chunks) s :=
  Reaches.forM chunks
    (fun newChars t => Reaches.update (insertProcess_inserts newChars t)) s

theorem insertDone_inserts (s : Editor) : Inserts s (insertDone sci s) := by
  have hinert : (Token.ranges s.ranges).Inert := trivial
  have hpush := push_moves hinert s
  have hfirst : Inserts s (s.push (.ranges s.ranges)) :=
    Inserts.of_quiet hpush.toQuiet hpush.restores
  unfold insertDone
  dsimp only
  split
  · exact hfirst
  · apply hfirst.trans
    exact Inserts.of_quiet { Quiet.refl _ with }
      (Restores.of_alike rfl ⟨rfl, fun _ => Document.Same.refl _⟩)

theorem setReplaceString_inserts (str : Bytes) (s : Editor) :
    Inserts s (s.setString .replace str) :=
  Inserts.of_quiet (setString_quiet .replace str s)
    (setString_restores rfl str s)

theorem replaceDefaultInsertDone_inserts (str : Bytes) (s : Editor) :
    Inserts s (replaceDefaultInsertDone str s) := by
  unfold replaceDefaultInsertDone
  split
  · exact setReplaceString_inserts str s
  · unfold insertReplaceString
    split
    · exact insertProcess_inserts _ s
    · exact Inserts.refl s

theorem replaceDefaultIgnoreDone_inserts (str : Bytes) (s : Editor) :
    Inserts s (replaceDefaultIgnoreDone str s) := by
  unfold replaceDefaultIgnoreDone
  split
  · exact setReplaceString_inserts str s
  · exact Inserts.refl s

/-!
## Whole commands
-/

/-- What comes after a search decides about the balance of a command. -/
theorem searching_balanced_iff {args : Arguments} {typed : List Bytes}
    {str : Bytes} {modifierColon : Nat} {step : Command Unit}
    {p : Editor -> Prop}
    (hsuccess : forall t, isSuccess t.searchState = true ->
      BalancedWhen t (finalState (step t)) (p t))
    (hfailure : forall t, ¬ isSuccess t.searchState = true ->
      Inserts t (finalState (step t))) (s : Editor) :
    Balanced s (finalState ((do
        searching sci regexps args typed str modifierColon
        step) s)) <->
      forall t,
        searching sci regexps args typed str modifierColon s = .ok () t ->
          isSuccess t.searchState = true -> p t := by
  have hmoves := searching_moves sci regexps args typed str modifierColon s
  cases hrun : searching sci regexps args typed str modifierColon s with
  | error err t =>
      unfold Reaches at hmoves
      rw [run_bind_error hrun]
      rw [hrun] at hmoves
      constructor
      · intro _ u hu
        cases hu
      · intro _
        exact hmoves.toQuiet.balanced hmoves.restores
  | ok _ t =>
      have hquiet := (hmoves.of_ok hrun).toQuiet
      have hcovers := searching_covers sci regexps hrun
      rw [run_bind_ok hrun]
      by_cases hstate : isSuccess t.searchState = true
      · rw [(hsuccess t hstate).balanced_iff hquiet hcovers]
        constructor
        · intro hp u hu _
          cases hu
          exact hp
        · intro hp
          exact hp t rfl hstate
      · have hnothing : BalancedWhen t t True :=
          { keeps := Keeps.refl t
            inside := fun _ => DeletesInside.of_eq rfl
            counted := fun _ => rfl
            rewinds := fun _ => (Restores.refl t).rewinds
            condition := fun _ _ => trivial }
        rw [(hnothing.inserts (hfailure t hstate)).balanced_iff hquiet
          hcovers]
        constructor
        · intro _ u hu hu'
          cases hu
          exact absurd hu' hstate
        · intro _
          trivial

theorem onSuccess_pos {step : Editor -> Editor}
    (h : isSuccess s.searchState = true) :
    onSuccess step s = .ok () (step s) := by
  change EStateM.Result.ok () (if _ then _ else _) = _
  rw [if_pos h]

theorem onSuccess_neg {step : Editor -> Editor}
    (h : ¬ isSuccess s.searchState = true) :
    onSuccess step s = .ok () s := by
  change EStateM.Result.ok () (if _ then _ else _) = _
  rw [if_neg h]

/-- `FD` goes on with a replacement. -/
theorem searchDelete_then {found notFound : Command Unit}
    (hfound : forall t, Reaches Inserts found t)
    (hnotFound : forall t, Reaches Inserts notFound t) (t : Editor) :
    (isSuccess t.searchState = true ->
        BalancedWhen t (finalState ((do
          onSuccess searchDelete
          let s <- get
          if isSuccess s.searchState then found else notFound) t))
            (DeleteMeets t)) ∧
      (¬ isSuccess t.searchState = true ->
        Inserts t (finalState ((do
          onSuccess searchDelete
          let s <- get
          if isSuccess s.searchState then found else notFound) t))) := by
  constructor
  · intro h
    have hstate : isSuccess (searchDelete t).searchState = true := by
      rw [searchDelete_searchState]
      exact h
    rw [run_bind_ok (onSuccess_pos h), run_get_bind, if_pos hstate]
    exact (searchDelete_balancedWhen t).inserts (hfound (searchDelete t))
  · intro h
    rw [run_bind_ok (onSuccess_neg h), run_get_bind, if_neg h]
    exact hnotFound t

/-- The commands that delete or replace text. -/
inductive DeleteCommand where
  | words (wchars : Bytes) (cmd : String) (factor v : TecoInt)
      (modifierAt : Bool) (modifierColon : Nat)
  | kill (cmd : String) (byLines : Bool) (args : Arguments)
      (modifierColon : Nat)
  | searchKill (args : Arguments) (typed : List Bytes) (str : Bytes)
      (modifierColon : Nat)
  | searchDelete (args : Arguments) (typed : List Bytes) (str : Bytes)
      (modifierColon : Nat)
  | replace (args : Arguments) (typed : List Bytes) (str : Bytes)
      (modifierColon : Nat) (chunks : List { str : Bytes // str ≠ [] })
  | replaceDefault (args : Arguments) (typed : List Bytes) (str : Bytes)
      (modifierColon : Nat) (chunks : List { str : Bytes // str ≠ [] })

namespace DeleteCommand

def run : DeleteCommand -> Command Unit
  | words wchars cmd factor v modifierAt modifierColon =>
      startDeleteWords wchars cmd factor v modifierAt modifierColon
  | kill cmd byLines args modifierColon =>
      startKill sci cmd byLines args modifierColon
  | searchKill args typed str modifierColon =>
      searchKillCommand sci regexps args typed str modifierColon
  | searchDelete args typed str modifierColon =>
      searchDeleteCommand sci regexps args typed str modifierColon
  | replace args typed str modifierColon chunks =>
      replaceCommand sci regexps args typed str modifierColon chunks
  | replaceDefault args typed str modifierColon chunks =>
      replaceDefaultCommand sci regexps args typed str modifierColon chunks

/-- The condition on the state in which a successful search ends. -/
def AfterSearch (args : Arguments) (typed : List Bytes) (str : Bytes)
    (modifierColon : Nat) (p : Editor -> Prop) (s : Editor) : Prop :=
  forall t, searching sci regexps args typed str modifierColon s = .ok () t ->
    isSuccess t.searchState = true -> p t

/-- The condition under which a command is balanced. -/
def Meets (s : Editor) : DeleteCommand -> Prop
  | words _ _ _ _ _ _ => True
  | kill _ _ _ _ => True
  | searchKill args typed str modifierColon =>
      AfterSearch sci regexps args typed str modifierColon KillMeets s
  | searchDelete args typed str modifierColon =>
      AfterSearch sci regexps args typed str modifierColon DeleteMeets s
  | replace args typed str modifierColon _ =>
      AfterSearch sci regexps args typed str modifierColon DeleteMeets s
  | replaceDefault args typed str modifierColon _ =>
      AfterSearch sci regexps args typed str modifierColon DeleteMeets s

/-- Undo actions are balanced, except for `FD`, `FS` and `FR` with nothing to
delete and `FK` with a match around the dot. -/
theorem run_balanced_iff (command : DeleteCommand) (s : Editor) :
    Balanced s (finalState (command.run sci regexps s)) <->
      command.Meets sci regexps s := by
  cases command with
  | words wchars cmd factor v modifierAt modifierColon =>
      have hwords := startDeleteWords_balanced wchars cmd factor v modifierAt
        modifierColon s
      exact ⟨fun _ => trivial, fun _ => hwords⟩
  | kill cmd byLines args modifierColon =>
      have hkill := startKill_balanced sci cmd byLines args modifierColon s
      exact ⟨fun _ => trivial, fun _ => hkill⟩
  | searchKill args typed str modifierColon =>
      apply searching_balanced_iff sci regexps
      · intro t h
        rw [onSuccess_pos h]
        exact searchKill_balancedWhen sci t
      · intro t h
        rw [onSuccess_neg h]
        exact Inserts.refl t
  | searchDelete args typed str modifierColon =>
      apply searching_balanced_iff sci regexps
      · intro t h
        rw [onSuccess_pos h]
        exact searchDelete_balancedWhen t
      · intro t h
        rw [onSuccess_neg h]
        exact Inserts.refl t
  | replace args typed str modifierColon chunks =>
      have hfound : forall t, Reaches Inserts (do
          replaceInsert chunks
          modify (insertDone sci)) t := by
        intro t
        apply Reaches.bind (replaceInsert_inserts chunks t)
        intro _ u _
        exact Reaches.update (insertDone_inserts sci u)
      have hnotFound : forall t, Reaches Inserts (pure () : Command Unit) t :=
        fun t => Reaches.pure ()
      have hstep := searchDelete_then hfound hnotFound
      change Balanced s (finalState
        (replaceCommand sci regexps args typed str modifierColon chunks s)) <->
          _
      unfold replaceCommand searchDeleteCommand
      rw [bind_assoc]
      exact searching_balanced_iff sci regexps (fun t => (hstep t).1)
        (fun t => (hstep t).2) s
  | replaceDefault args typed str modifierColon chunks =>
      let replacement := chunks.flatMap Subtype.val
      have hfound : forall t, Reaches Inserts (do
          replaceInsert chunks
          modify (replaceDefaultInsertDone replacement)) t := by
        intro t
        apply Reaches.bind (replaceInsert_inserts chunks t)
        intro _ u _
        exact Reaches.update (replaceDefaultInsertDone_inserts replacement u)
      have hnotFound : forall t, Reaches Inserts
          (modify (replaceDefaultIgnoreDone replacement) : Command Unit) t :=
        fun t =>
          Reaches.update (replaceDefaultIgnoreDone_inserts replacement t)
      have hstep := searchDelete_then hfound hnotFound
      change Balanced s (finalState (replaceDefaultCommand sci regexps args
        typed str modifierColon chunks s)) <-> _
      unfold replaceDefaultCommand searchDeleteCommand
      rw [bind_assoc]
      exact searching_balanced_iff sci regexps (fun t => (hstep t).1)
        (fun t => (hstep t).2) s

end DeleteCommand

end

/-!
## A match around the dot
-/

/-- A match from before the dot to behind it makes `FK` delete a range of
negative length, which has no effect but for an `SCI_UNDO` token. -/
theorem searchKill_around_dot :
    (finalState (searchKillCommand singleLine literalRegexps (.two 0 4) []
      (utf8 "abc") 0 middleOfText)).deletions =
        [{ start := 2, len := -2, documentLength := 4 }] ∧
      undoCount (finalState (searchKillCommand singleLine literalRegexps
        (.two 0 4) [] (utf8 "abc") 0 middleOfText)).tokens = 1 ∧
      (finalState (searchKillCommand singleLine literalRegexps
        (.two 0 4) [] (utf8 "abc") 0 middleOfText)).recorded = 0 ∧
      ¬ Balanced middleOfText (finalState (searchKillCommand singleLine
        literalRegexps (.two 0 4) [] (utf8 "abc") 0 middleOfText)) := by
  have hdeletions : (finalState (searchKillCommand singleLine literalRegexps
      (.two 0 4) [] (utf8 "abc") 0 middleOfText)).deletions =
        [{ start := 2, len := -2, documentLength := 4 }] := by decide
  refine ⟨hdeletions, by decide, by decide, ?_⟩
  intro hbalanced
  have hinside := hbalanced.deletesInside.inside hdeletions
  exact absurd hinside (by decide)

end Editing
end SciTECO
