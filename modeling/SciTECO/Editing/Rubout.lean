import SciTECO.Editing.Commands
import SciTECO.Lib.Reaches

/-!
# Rubout

Rubbing out a command runs the undo tokens it has pushed.  This module states
when that brings the documents back, for the steps of which commands consist.
-/

namespace SciTECO
namespace Editing

/-- Tokens that stay in the current document. -/
def Token.Stays : Token -> Prop
  | .ringEdit _ _ => False
  | _ => True

namespace Editor

variable {s t u : Editor}

/-!
## Editors up to selections
-/

/-- The same document is shown, and all documents are the same but for the
selection in this one and the anchors in the others. -/
structure Near (s t : Editor) : Prop where
  shown : s.shown = t.shown
  text : Document.SameText s.document t.document
  others : forall view, view ≠ t.shown ->
    Document.Same (s.documents view) (t.documents view)

/-- The same document is shown, and all documents are the same but for their
anchors. -/
structure Alike (s t : Editor) : Prop where
  shown : s.shown = t.shown
  same : forall view, Document.Same (s.documents view) (t.documents view)

theorem Alike.document (h : Alike s t) :
    Document.Same s.document t.document := by
  unfold Editor.document
  rw [h.shown]
  exact h.same t.shown

theorem Alike.near (h : Alike s t) : Near s t :=
  ⟨h.shown, h.document.toSameText, fun view _ => h.same view⟩

/-- Messages to the current document leave the others. -/
theorem ssm_others (f : Document -> Document) {view : View}
    (h : view ≠ s.shown) : (s.ssm f).documents view = s.documents view :=
  Function.update_of_ne h _ _

@[simp] theorem ssm_document (f : Document -> Document) (s : Editor) :
    (s.ssm f).document = f s.document :=
  Function.update_self _ _ _

namespace Near

@[refl] theorem refl (s : Editor) : Near s s :=
  ⟨rfl, Document.SameText.refl _, fun _ _ => Document.Same.refl _⟩

theorem trans (h : Near s t) (h' : Near t u) : Near s u := by
  refine ⟨h.shown.trans h'.shown, h.text.trans h'.text, ?_⟩
  intro view hview
  have hview' : view ≠ t.shown := by
    rw [h'.shown]
    exact hview
  exact (h.others view hview').trans (h'.others view hview)

theorem ssm (h : Near s t) {f g : Document -> Document}
    (hf : Document.SameText (f s.document) (g t.document)) :
    Near (s.ssm f) (t.ssm g) := by
  refine ⟨h.shown, ?_, ?_⟩
  · rw [ssm_document, ssm_document]
    exact hf
  · intro view hview
    have hother : view ≠ t.shown := hview
    have hother' : view ≠ s.shown := by
      rw [h.shown]
      exact hother
    rw [ssm_others f hother', ssm_others g hother]
    exact h.others view hother

/-- A register gets the same document in both editors. -/
theorem string (h : Near s t) (reg : QReg) (doc : Document) :
    Near (s.runToken (.string reg doc)) (t.runToken (.string reg doc)) := by
  refine ⟨h.shown, ?_, ?_⟩
  · unfold Editor.document Editor.runToken
    dsimp only
    rw [h.shown]
    by_cases hview : t.shown = .qreg reg
    · rw [hview, Function.update_self, Function.update_self]
    · rw [Function.update_of_ne hview, Function.update_of_ne hview]
      have htext := h.text
      unfold Editor.document at htext
      rw [h.shown] at htext
      exact htext
  · intro view hview
    unfold Editor.runToken
    dsimp only
    by_cases hreg : view = .qreg reg
    · rw [hreg, Function.update_self, Function.update_self]
    · rw [Function.update_of_ne hreg, Function.update_of_ne hreg]
      exact h.others view hview

end Near

namespace Alike

@[refl] theorem refl (s : Editor) : Alike s s :=
  ⟨rfl, fun view => Document.Same.refl (s.documents view)⟩

theorem trans (h : Alike s t) (h' : Alike t u) : Alike s u :=
  ⟨h.shown.trans h'.shown, fun view => (h.same view).trans (h'.same view)⟩

/-- Editors are alike if they are the same up to selections and the current
document is the same. -/
theorem of_near (h : Near s t)
    (hsame : Document.Same s.document t.document) : Alike s t := by
  refine ⟨h.shown, ?_⟩
  intro view
  by_cases hview : view = t.shown
  · subst hview
    unfold Editor.document at hsame
    rw [h.shown] at hsame
    exact hsame
  · exact h.others view hview

theorem ssm (h : Alike s t) {f g : Document -> Document}
    (hf : Document.Same (f s.document) (g t.document)) :
    Alike (s.ssm f) (t.ssm g) := by
  apply of_near (h.near.ssm hf.toSameText)
  rw [ssm_document, ssm_document]
  exact hf

theorem string (h : Alike s t) (reg : QReg) (doc : Document) :
    Alike (s.runToken (.string reg doc)) (t.runToken (.string reg doc)) := by
  refine ⟨h.shown, ?_⟩
  intro view
  unfold Editor.runToken
  dsimp only
  by_cases hreg : view = .qreg reg
  · rw [hreg, Function.update_self, Function.update_self]
  · rw [Function.update_of_ne hreg, Function.update_of_ne hreg]
    exact h.same view

/-- A token makes no difference between editors which are alike. -/
theorem runToken (h : Alike s t) (token : Token) :
    Alike (s.runToken token) (t.runToken token) := by
  cases token with
  | setSel anchor dot => exact h.ssm (h.document.setSel anchor dot)
  | gotoPos pos => exact h.ssm (h.document.setSel pos pos)
  | setAnchor anchor => exact h.ssm (h.document.setAnchor anchor)
  | undo => exact h.ssm h.document.undo
  | string reg doc => exact h.string reg doc
  | searchState value => exact ⟨h.shown, h.same⟩
  | searchParameters parameters => exact ⟨h.shown, h.same⟩
  | ranges ranges => exact ⟨h.shown, h.same⟩
  | ringEdit qregCurrent ringCurrent => exact ⟨rfl, h.same⟩

theorem runTokens (h : Alike s t) (tokens : List Token) :
    Alike (runTokens tokens s) (runTokens tokens t) := by
  induction tokens generalizing s t with
  | nil => exact h
  | cons token rest ih => exact ih (h.runToken token)

end Alike

/-- Such a token makes no difference but for the selection. -/
theorem Near.runToken (h : Near s t) {token : Token} (hstay : token.Stays) :
    Near (s.runToken token) (t.runToken token) := by
  cases token with
  | setSel anchor dot => exact h.ssm ⟨h.text.text, h.text.history⟩
  | gotoPos pos => exact h.ssm ⟨h.text.text, h.text.history⟩
  | setAnchor anchor => exact h.ssm ⟨h.text.text, h.text.history⟩
  | undo => exact h.ssm h.text.undo
  | string reg doc => exact h.string reg doc
  | searchState value => exact ⟨h.shown, h.text, h.others⟩
  | searchParameters parameters => exact ⟨h.shown, h.text, h.others⟩
  | ranges ranges => exact ⟨h.shown, h.text, h.others⟩
  | ringEdit qregCurrent ringCurrent => exact hstay.elim

theorem Near.runTokens (h : Near s t) {tokens : List Token}
    (hstay : forall token, token ∈ tokens -> token.Stays) :
    Near (runTokens tokens s) (runTokens tokens t) := by
  induction tokens generalizing s t with
  | nil => exact h
  | cons token rest ih =>
      have hhead := h.runToken (hstay token List.mem_cons_self)
      exact ih hhead (fun token hmem =>
        hstay token (List.mem_cons_of_mem _ hmem))

/-!
## Steps
-/

/-- Undo tokens are pushed for the current document. -/
def undoes (s : Editor) : Bool := s.currentDocMustUndo && s.undoEnabled

/-- The tokens between two states stay in the current document. -/
def Pushes (s t : Editor) (new : List Token) : Prop :=
  t.tokens = new ++ s.tokens ∧ forall token, token ∈ new -> token.Stays

/-- Rubout restores all documents but for their anchors. -/
def Restores (s t : Editor) : Prop :=
  s.undoes = true ->
    exists new, Pushes s t new ∧ Alike (runTokens new t) s

/-- Rubout restores all documents but for the selection. -/
def Rewinds (s t : Editor) : Prop :=
  s.undoes = true ->
    exists new, Pushes s t new ∧ Near (runTokens new t) s

/-- Rubout restores all documents, even if the selection has changed. -/
def Covers (s t : Editor) : Prop :=
  s.undoes = true ->
    exists new, Pushes s t new ∧
      forall u, Near u t -> Alike (runTokens new u) s

namespace Pushes

variable {earlier later : List Token}

theorem nil (h : t.tokens = s.tokens) : Pushes s t [] :=
  ⟨h, fun _ hmem => (List.not_mem_nil hmem).elim⟩

theorem singleton {token : Token} (h : t.tokens = token :: s.tokens)
    (hstay : token.Stays) : Pushes s t [token] := by
  refine ⟨h, ?_⟩
  intro other hmem
  rw [List.mem_singleton.mp hmem]
  exact hstay

theorem append (h : Pushes s t earlier) (h' : Pushes t u later) :
    Pushes s u (later ++ earlier) := by
  constructor
  · rw [h'.1, h.1, List.append_assoc]
  · intro token hmem
    rcases List.mem_append.mp hmem with hmem | hmem
    · exact h'.2 token hmem
    · exact h.2 token hmem

end Pushes

/-- A command may go on to edit the same document. -/
structure Keeps (s t : Editor) : Prop where
  shown : t.shown = s.shown
  qregCurrent : t.qregCurrent = s.qregCurrent
  undoEnabled : t.undoEnabled = s.undoEnabled

namespace Keeps

@[refl] theorem refl (s : Editor) : Keeps s s := ⟨rfl, rfl, rfl⟩

theorem trans (h : Keeps s t) (h' : Keeps t u) : Keeps s u :=
  ⟨h'.shown.trans h.shown, h'.qregCurrent.trans h.qregCurrent,
    h'.undoEnabled.trans h.undoEnabled⟩

theorem undoes (h : Keeps s t) : t.undoes = s.undoes := by
  unfold Editor.undoes currentDocMustUndo
  rw [h.qregCurrent, h.undoEnabled]

end Keeps

theorem Restores.trans (hst : Keeps s t) (h : Restores s t)
    (h' : Restores t u) : Restores s u := by
  intro hundo
  rcases h hundo with ⟨earlier, hearlier, halike⟩
  rcases h' (hst.undoes.trans hundo) with ⟨later, hlater, halike'⟩
  refine ⟨later ++ earlier, hearlier.append hlater, ?_⟩
  rw [runTokens_append]
  exact (halike'.runTokens earlier).trans halike

theorem Restores.rewinds (h : Restores s t) : Rewinds s t := by
  intro hundo
  rcases h hundo with ⟨new, hnew, halike⟩
  exact ⟨new, hnew, halike.near⟩

theorem Rewinds.trans (hst : Keeps s t) (h : Rewinds s t)
    (h' : Rewinds t u) : Rewinds s u := by
  intro hundo
  rcases h hundo with ⟨earlier, hearlier, hnear⟩
  rcases h' (hst.undoes.trans hundo) with ⟨later, hlater, hnear'⟩
  refine ⟨later ++ earlier, hearlier.append hlater, ?_⟩
  rw [runTokens_append]
  exact (hnear'.runTokens hearlier.2).trans hnear

theorem Covers.restores (h : Covers s t) : Restores s t := by
  intro hundo
  rcases h hundo with ⟨new, hnew, halike⟩
  exact ⟨new, hnew, halike t (Near.refl t)⟩

/-- What rewinds may follow what covers. -/
theorem Covers.rewinds (hst : Keeps s t) (h : Covers s t)
    (h' : Rewinds t u) : Covers s u := by
  intro hundo
  rcases h hundo with ⟨earlier, hearlier, halike⟩
  rcases h' (hst.undoes.trans hundo) with ⟨later, hlater, hnear⟩
  refine ⟨later ++ earlier, hearlier.append hlater, ?_⟩
  intro v hv
  rw [runTokens_append]
  exact halike _ ((hv.runTokens hlater.2).trans hnear)

/-- What restores may precede what covers. -/
theorem Restores.covers (hst : Keeps s t) (h : Restores s t)
    (h' : Covers t u) : Covers s u := by
  intro hundo
  rcases h hundo with ⟨earlier, hearlier, halike⟩
  rcases h' (hst.undoes.trans hundo) with ⟨later, hlater, halike'⟩
  refine ⟨later ++ earlier, hearlier.append hlater, ?_⟩
  intro v hv
  rw [runTokens_append]
  exact ((halike' v hv).runTokens earlier).trans halike

/-- Without tokens, all documents are the same up to anchors. -/
theorem Restores.of_alike (htokens : t.tokens = s.tokens)
    (h : Alike t s) : Restores s t :=
  fun _ => ⟨[], Pushes.nil htokens, h⟩

theorem Restores.refl (s : Editor) : Restores s s :=
  Restores.of_alike rfl (Alike.refl s)

/-- The tokens of a step are counted against the actions it has recorded. -/
def Counted (s t : Editor) : Prop :=
  undoCount t.tokens + (if s.undoes then s.recorded else 0) =
    undoCount s.tokens + (if s.undoes then t.recorded else 0)

/-- All ranges that have been deleted are inside the document. -/
def DeletesInside (s t : Editor) : Prop :=
  exists new, t.deletions = new ++ s.deletions ∧
    forall deletion, deletion ∈ new -> deletion.Inside

/-- There is an `SCI_UNDO` token for every recorded action and no other, the
ranges that have been deleted are inside the document, and rubout restores the
text and the dot. -/
structure Balanced (s t : Editor) : Prop where
  keeps : Keeps s t
  counted : Counted s t
  deletesInside : DeletesInside s t
  restores : Restores s t

theorem DeletesInside.trans (h : DeletesInside s t)
    (h' : DeletesInside t u) : DeletesInside s u := by
  rcases h with ⟨earlier, hearlier, hinside⟩
  rcases h' with ⟨later, hlater, hinside'⟩
  exists later ++ earlier
  constructor
  · rw [hlater, hearlier, List.append_assoc]
  · intro deletion hmem
    rcases List.mem_append.mp hmem with hmem | hmem
    · exact hinside' deletion hmem
    · exact hinside deletion hmem

theorem DeletesInside.of_eq (h : t.deletions = s.deletions) :
    DeletesInside s t := by
  refine ⟨[], h, ?_⟩
  intro deletion hmem
  cases hmem

theorem Counted.trans (hst : Keeps s t) (h : Counted s t)
    (h' : Counted t u) : Counted s u := by
  unfold Counted at *
  rw [hst.undoes] at h'
  omega

/-- What follows a counted step is counted if the whole is. -/
theorem Counted.rest (hst : Keeps s t) (h : Counted s t)
    (h' : Counted s u) : Counted t u := by
  unfold Counted at *
  rw [hst.undoes]
  omega

/-- What precedes a counted step is counted if the whole is. -/
theorem Counted.start (hst : Keeps s t) (h : Counted t u)
    (h' : Counted s u) : Counted s t := by
  unfold Counted at *
  rw [hst.undoes] at h
  omega

namespace Balanced

@[refl] theorem refl (s : Editor) : Balanced s s :=
  ⟨Keeps.refl s, rfl, DeletesInside.of_eq rfl,
    Restores.refl s⟩

theorem trans (h : Balanced s t) (h' : Balanced t u) : Balanced s u :=
  ⟨h.keeps.trans h'.keeps, h.counted.trans h.keeps h'.counted,
    h.deletesInside.trans h'.deletesInside,
    h.restores.trans h.keeps h'.restores⟩

end Balanced

instance : Std.Refl Balanced := ⟨Balanced.refl⟩

instance : IsTrans Editor Balanced := ⟨fun _ _ _ => Balanced.trans⟩

/-!
## Pushing tokens
-/

@[simp] theorem push_documents (token : Token) (s : Editor) :
    (s.push token).documents = s.documents := by
  unfold push
  split <;> rfl

@[simp] theorem push_recorded (token : Token) (s : Editor) :
    (s.push token).recorded = s.recorded := by
  unfold push
  split <;> rfl

@[simp] theorem push_deletions (token : Token) (s : Editor) :
    (s.push token).deletions = s.deletions := by
  unfold push
  split <;> rfl

@[simp] theorem push_searchParameters (token : Token) (s : Editor) :
    (s.push token).searchParameters = s.searchParameters := by
  unfold push
  split <;> rfl

@[simp] theorem push_ringCurrent (token : Token) (s : Editor) :
    (s.push token).ringCurrent = s.ringCurrent := by
  unfold push
  split <;> rfl

theorem push_keeps (token : Token) (s : Editor) : Keeps s (s.push token) := by
  unfold push
  split
  · exact ⟨rfl, rfl, rfl⟩
  · exact Keeps.refl s

theorem push_tokens {token : Token} (h : s.undoEnabled = true) :
    (s.push token).tokens = token :: s.tokens := by
  unfold push
  rw [if_pos h]

theorem undoCount_cons {token : Token} (h : token ≠ .undo)
    (tokens : List Token) :
    undoCount (token :: tokens) = undoCount tokens :=
  List.count_cons_of_ne h

theorem push_undoCount {token : Token} (h : token ≠ .undo) :
    undoCount (s.push token).tokens = undoCount s.tokens := by
  unfold push
  split
  · exact undoCount_cons h s.tokens
  · rfl

/-- A message that is sent only if the current document must be undone. -/
theorem undoSsm_eq (token : Token) (s : Editor) :
    s.undoSsm token = s.push token ∨ s.undoSsm token = s := by
  unfold undoSsm
  split
  · exact Or.inl rfl
  · exact Or.inr rfl

theorem undoSsm_of_undoes {token : Token} (h : s.undoes = true) :
    s.undoSsm token = { s with tokens := token :: s.tokens } := by
  rcases Bool.and_eq_true_iff.mp h with ⟨hmust, henabled⟩
  unfold undoSsm push
  rw [if_pos hmust, if_pos henabled]

theorem undoSsm_of_not_undoes {token : Token} (h : s.undoes = false) :
    s.undoSsm token = s := by
  unfold undoSsm push
  split
  · split
    · next hmust henabled =>
        have : s.undoes = true := Bool.and_eq_true_iff.mpr ⟨hmust, henabled⟩
        rw [h] at this
        cases this
    · rfl
  · rfl

end Editor

end Editing
end SciTECO
