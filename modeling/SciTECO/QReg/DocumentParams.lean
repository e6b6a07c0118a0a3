import SciTECO.QReg.DocumentUndo

/-!
# Texts and parameters of registers

What setting and appending strings does to the texts and the parameters of all
registers, and what is restored when it is undone.  The parameters of the
register that is edited are those of the view.
-/

namespace SciTECO
namespace Documents

open References

variable {Reg : Type} [DecidableEq Reg]

namespace State

variable {s t u : State Reg} {tokens : List (Token Reg)} {name other : Reg}

/-- A text, and the texts to which it can be undone. -/
def bodyOf (doc : Option DocId) (s : State Reg) : Bytes × List Bytes :=
  match doc with
  | none => ([], [])
  | some id => ((s.docs id).text, (s.docs id).history)

def docOf (name : Reg) (s : State Reg) : Option DocId :=
  (s.read (.qreg name)).bind TecoDoc.doc

def contentsOf (name : Reg) (s : State Reg) : Option (Bytes × List Bytes) :=
  (s.read (.qreg name)).map (fun ctx => s.bodyOf ctx.doc)

def storedOf (name : Reg) (s : State Reg) : Option Params :=
  (s.read (.qreg name)).map TecoDoc.params

def textOf (name : Reg) (s : State Reg) : Option Bytes :=
  (s.contentsOf name).map Prod.fst

/-- The parameters of the register that is edited are in the view. -/
def paramsOf (name : Reg) (s : State Reg) : Option Params :=
  if s.current = some name then some s.view.params else s.storedOf name

/-- Registers do not share documents. -/
def Distinct (s : State Reg) : Prop :=
  forall name other id, s.docOf name = some id -> s.docOf other = some id ->
    name = other

structure Sound (tokens : List (Token Reg)) (s : State Reg) : Prop where
  counted : Counted s tokens
  distinct : s.Distinct

/-- The documents that exist already have the same texts. -/
structure SameTexts (s t : State Reg) : Prop where
  nextDoc : s.nextDoc <= t.nextDoc
  bodies : forall id, id < s.nextDoc ->
    t.bodyOf (some id) = s.bodyOf (some id)

omit [DecidableEq Reg] in
theorem SameTexts.refl (s : State Reg) : SameTexts s s :=
  ⟨Nat.le_refl _, fun _ _ => rfl⟩

omit [DecidableEq Reg] in
theorem SameTexts.trans (h : SameTexts s t) (h' : SameTexts t u) :
    SameTexts s u := by
  constructor
  · exact Nat.le_trans h.nextDoc h'.nextDoc
  · intro id hid
    rw [h'.bodies id (Nat.lt_of_lt_of_le hid h.nextDoc), h.bodies id hid]

/-- Registers have the same texts and keep their documents. -/
structure SameContents (s t : State Reg) : Prop where
  texts : SameTexts s t
  contents : forall name, t.contentsOf name = s.contentsOf name
  docs : forall name id, s.docOf name = some id -> t.docOf name = some id

theorem SameContents.refl (s : State Reg) : SameContents s s :=
  ⟨SameTexts.refl s, fun _ => rfl, fun _ _ h => h⟩

theorem SameContents.trans (h : SameContents s t) (h' : SameContents t u) :
    SameContents s u :=
  ⟨h.texts.trans h'.texts,
    fun name => (h'.contents name).trans (h.contents name),
    fun name id hid => h'.docs name id (h.docs name id hid)⟩

/-- Documents of registers exist. -/
theorem Counted.allocated (h : Counted s tokens) {id : DocId}
    (hid : s.docOf name = some id) : id < s.nextDoc := by
  rcases Option.bind_eq_some_iff.mp hid with ⟨ctx, hread, hdoc⟩
  have hpos := h.refs_pos hread hdoc
  rcases Nat.lt_or_ge id s.nextDoc with hlt | hge
  · exact hlt
  · rw [h.fresh id hge] at hpos
    exact absurd hpos (Nat.lt_irrefl 0)

/-!
## Reading registers
-/

theorem read_write_of_ne (hne : other ≠ name) (doc : TecoDoc)
    (s : State Reg) :
    (s.write (.qreg name) doc).read (.qreg other) = s.read (.qreg other) := by
  show (List.find? (fun qreg => qreg.name = other)
      (updateQReg name doc s.qregs)).map QReg.string =
    (List.find? (fun qreg => qreg.name = other) s.qregs).map QReg.string
  induction s.qregs with
  | nil => rfl
  | cons qreg qregs ih =>
      unfold updateQReg at ih ⊢
      rw [List.map_cons, List.find?_cons, List.find?_cons]
      by_cases hname : qreg.name = name
      · have hother : qreg.name ≠ other := by
          rw [hname]
          exact hne.symm
        rw [hname] at hother
        simp only [hname, if_true, hother, decide_false]
        exact ih
      · simp only [hname, if_false]
        cases hfound : decide (qreg.name = other) with
        | true => rfl
        | false => exact ih

/-- Only references are different. -/
structure SameBodies (s t : State Reg) : Prop where
  owners : SameOwners s t
  bodies : forall id, t.bodyOf (some id) = s.bodyOf (some id)

omit [DecidableEq Reg] in
theorem SameBodies.trans (h : SameBodies s t) (h' : SameBodies t u) :
    SameBodies s u :=
  ⟨h.owners.trans h'.owners,
    fun id => (h'.bodies id).trans (h.bodies id)⟩

theorem SameBodies.sameContents (h : SameBodies s t) :
    SameContents s t ∧ (forall name, t.storedOf name = s.storedOf name) ∧
      forall name, t.docOf name = s.docOf name := by
  have hread : forall name, t.read (.qreg name) = s.read (.qreg name) :=
    fun name => h.owners.read (.qreg name)
  have hdocs : forall name, t.docOf name = s.docOf name := by
    intro name
    unfold docOf
    rw [hread]
  have hbody : forall doc, t.bodyOf doc = s.bodyOf doc := by
    intro doc
    cases doc with
    | none => rfl
    | some id => exact h.bodies id
  refine ⟨⟨⟨?_, fun id _ => h.bodies id⟩, ?_, ?_⟩, ?_, hdocs⟩
  · rw [h.owners.nextDoc]
  · intro name
    unfold contentsOf
    rw [hread]
    congr 1
    funext ctx
    exact hbody ctx.doc
  · intro name id hid
    rw [hdocs]
    exact hid
  · intro name
    unfold storedOf
    rw [hread]

/-- Other parameters of a register. -/
theorem write_params {ctx : TecoDoc} {params : Params}
    (hread : s.read (.qreg name) = some ctx)
    (ht : t = s.write (.qreg name) { ctx with params := params }) :
    SameContents s t ∧ (forall other, t.docOf other = s.docOf other) ∧
      forall other, t.storedOf other =
        if other = name then some params else s.storedOf other := by
  have hvalid : s.Valid (.qreg name) := by
    unfold Valid
    rw [hread]
    rfl
  have hself := read_write_self hvalid { ctx with params := params }
  have hothers : forall other, other ≠ name ->
      t.read (.qreg other) = s.read (.qreg other) := by
    intro other hne
    rw [ht]
    exact read_write_of_ne hne _ s
  rw [<- ht] at hself
  have hdocs : forall other, t.docOf other = s.docOf other := by
    intro other
    unfold docOf
    by_cases hne : other = name
    · subst hne
      rw [hself, hread]
      rfl
    · rw [hothers other hne]
  have hbody : forall doc, t.bodyOf doc = s.bodyOf doc := by
    intro doc
    rw [ht]
    rfl
  refine ⟨⟨⟨?_, fun id _ => hbody (some id)⟩, ?_, ?_⟩, hdocs, ?_⟩
  · rw [ht]
    exact Nat.le_refl _
  · intro other
    unfold contentsOf
    by_cases hne : other = name
    · subst hne
      rw [hself, hread]
      exact congrArg some (hbody ctx.doc)
    · rw [hothers other hne]
      congr 1
      funext ctx'
      exact hbody ctx'.doc
  · intro other id hid
    rw [hdocs]
    exact hid
  · intro other
    unfold storedOf
    by_cases hne : other = name
    · subst hne
      rw [hself, if_pos rfl]
      rfl
    · rw [hothers other hne, if_neg hne]

theorem Distinct.of_docs (h : s.Distinct)
    (hdocs : forall name, t.docOf name = s.docOf name) : t.Distinct := by
  intro name other id hname hother
  rw [hdocs] at hname hother
  exact h name other id hname hother

theorem docUpdate_updates (h : s.docUpdate (.qreg name) = some t) :
    SameContents s t ∧ (forall other, t.docOf other = s.docOf other) ∧
      (forall other, t.storedOf other =
        if other = name then some s.view.params else s.storedOf other) ∧
      t.view = s.view := by
  unfold docUpdate at h
  rcases Option.bind_eq_some_iff.mp h with ⟨ctx, hread, heq⟩
  cases heq
  rcases write_params hread rfl with ⟨hsame, hdocs, hstored⟩
  exact ⟨hsame, hdocs, hstored, rfl⟩

/-!
## Showing a register in the view
-/

omit [DecidableEq Reg] in
theorem setDocument_bodies {id other : DocId} {document : Document}
    (htext : document.text = (s.docs id).text)
    (hhistory : document.history = (s.docs id).history) :
    (s.setDocument id document).bodyOf (some other) =
      s.bodyOf (some other) := by
  unfold bodyOf setDocument
  dsimp only
  by_cases hother : other = id
  · subst hother
    rw [Function.update_self, htext, hhistory]
  · rw [Function.update_of_ne hother]

omit [DecidableEq Reg] in
theorem addRefDocument_same {id : DocId} (h : s.addRefDocument id = some t) :
    SameBodies s t ∧ t.view = s.view := by
  unfold addRefDocument at h
  split at h
  case isTrue => cases h
  case isFalse =>
    cases h
    exact ⟨⟨setDocument_sameOwners _ _ s,
      fun _ => setDocument_bodies rfl rfl⟩, rfl⟩

omit [DecidableEq Reg] in
theorem releaseDocument_same {id : DocId} (h : s.releaseDocument id = some t) :
    SameBodies s t ∧ t.view = s.view := by
  unfold releaseDocument at h
  split at h
  case isTrue => cases h
  case isFalse =>
    cases h
    exact ⟨⟨setDocument_sameOwners _ _ s,
      fun _ => setDocument_bodies rfl rfl⟩, rfl⟩

omit [DecidableEq Reg] in
theorem docScintillaRef_same {doc : Option DocId}
    (h : s.docScintillaRef doc = some t) :
    SameBodies s t ∧ t.view = s.view := by
  cases doc with
  | none =>
      cases h
      exact ⟨⟨SameOwners.refl s, fun _ => rfl⟩, rfl⟩
  | some id => exact addRefDocument_same h

omit [DecidableEq Reg] in
theorem docScintillaRelease_same {doc : Option DocId}
    (h : s.docScintillaRelease doc = some t) :
    SameBodies s t ∧ t.view = s.view := by
  cases doc with
  | none =>
      cases h
      exact ⟨⟨SameOwners.refl s, fun _ => rfl⟩, rfl⟩
  | some id => exact releaseDocument_same h

omit [DecidableEq Reg] in
theorem setDocPointer_shows {id : DocId} (h : s.setDocPointer id = some t) :
    SameBodies s t ∧ t.view = { doc := id, params := .zero } := by
  unfold setDocPointer at h
  rcases Option.bind_eq_some_iff.mp h with ⟨u, hu, hrest⟩
  rcases Option.bind_eq_some_iff.mp hrest with ⟨v, hv, heq⟩
  cases heq
  rcases addRefDocument_same hu with ⟨hsame, _⟩
  rcases releaseDocument_same hv with ⟨hsame', _⟩
  have hboth := hsame.trans hsame'
  refine ⟨⟨hboth.owners.trans ?_, hboth.bodies⟩, rfl⟩
  exact ⟨rfl, rfl, rfl, rfl, rfl, rfl, rfl, rfl, rfl, rfl⟩

/-- A document that is created has no text. -/
theorem docGetScintilla_same {id : DocId} (hs : Sound tokens s)
    (h : s.docGetScintilla (.qreg name) = some (id, t)) :
    SameContents s t ∧ t.Distinct ∧
      (forall other, t.storedOf other = s.storedOf other) ∧
      t.view = s.view ∧ t.docOf name = some id := by
  unfold docGetScintilla at h
  rcases Option.bind_eq_some_iff.mp h with ⟨ctx, hread, hrest⟩
  cases hdoc : ctx.doc with
  | some id' =>
      rw [hdoc] at hrest
      cases hrest
      refine ⟨SameContents.refl s, hs.distinct, fun _ => rfl, rfl, ?_⟩
      unfold docOf
      rw [hread]
      exact hdoc
  | none =>
      rw [hdoc] at hrest
      have heq : (s.nextDoc, s.createDocument.2.write (.qreg name)
          { ctx with doc := some s.nextDoc }) = (id, t) :=
        Option.some.inj hrest
      have hid : id = s.nextDoc := (congrArg Prod.fst heq).symm
      have ht : t = s.createDocument.2.write (.qreg name)
          { ctx with doc := some s.nextDoc } := (congrArg Prod.snd heq).symm
      have hvalid : s.createDocument.2.Valid (.qreg name) := by
        unfold Valid
        show (s.read (.qreg name)).isSome
        rw [hread]
        rfl
      have hself := read_write_self hvalid
        { ctx with doc := some s.nextDoc }
      rw [<- ht] at hself
      have hothers : forall other, other ≠ name ->
          t.read (.qreg other) = s.read (.qreg other) := by
        intro other hne
        rw [ht]
        exact read_write_of_ne hne _ s.createDocument.2
      have hbody : forall id, id < s.nextDoc ->
          t.bodyOf (some id) = s.bodyOf (some id) := by
        intro id hid
        rw [ht]
        unfold bodyOf
        show ((Function.update s.docs s.nextDoc _ id).text,
          (Function.update s.docs s.nextDoc _ id).history) = _
        rw [Function.update_of_ne (Nat.ne_of_lt hid)]
      have hnew : t.bodyOf (some s.nextDoc) = ([], []) := by
        rw [ht]
        unfold bodyOf
        show ((Function.update s.docs s.nextDoc _ s.nextDoc).text,
          (Function.update s.docs s.nextDoc _ s.nextDoc).history) = _
        rw [Function.update_self]
      have hdocs : forall other, other ≠ name ->
          t.docOf other = s.docOf other := by
        intro other hne
        unfold docOf
        rw [hothers other hne]
      have hown : t.docOf name = some s.nextDoc := by
        unfold docOf
        rw [hself]
        rfl
      have hnextDoc : s.nextDoc <= t.nextDoc := by
        rw [ht]
        exact Nat.le_succ _
      refine ⟨⟨⟨hnextDoc, hbody⟩, ?_, ?_⟩, ?_, ?_, by rw [ht]; rfl,
        by rw [hid]; exact hown⟩
      · intro other
        unfold contentsOf
        by_cases hne : other = name
        · subst hne
          rw [hself, hread]
          refine congrArg some (hnew.trans ?_)
          dsimp only
          rw [hdoc]
          rfl
        · rw [hothers other hne]
          cases hother : s.read (.qreg other) with
          | none => rfl
          | some ctx' =>
              refine congrArg some ?_
              dsimp only
              cases hdoc' : ctx'.doc with
              | none => rfl
              | some id =>
                  have hid : s.docOf other = some id := by
                    unfold docOf
                    rw [hother]
                    exact hdoc'
                  exact hbody id (hs.counted.allocated hid)
      · intro other id hid
        by_cases hne : other = name
        · subst hne
          unfold docOf at hid
          rw [hread, Option.bind_some, hdoc] at hid
          cases hid
        · rw [hdocs other hne]
          exact hid
      · intro first second id hfirst hsecond
        by_cases hne : first = name
        · by_cases hne' : second = name
          · exact hne.trans hne'.symm
          · rw [hne, hown] at hfirst
            cases hfirst
            rw [hdocs second hne'] at hsecond
            exact absurd (hs.counted.allocated hsecond)
              (Nat.lt_irrefl s.nextDoc)
        · rw [hdocs first hne] at hfirst
          by_cases hne' : second = name
          · rw [hne', hown] at hsecond
            cases hsecond
            exact absurd (hs.counted.allocated hfirst)
              (Nat.lt_irrefl s.nextDoc)
          · rw [hdocs second hne'] at hsecond
            exact hs.distinct first second id hfirst hsecond
      · intro other
        unfold storedOf
        by_cases hne : other = name
        · subst hne
          rw [hself, hread]
          rfl
        · rw [hothers other hne]

/-- The register is shown with its parameters. -/
structure Shows (name : Reg) (params : Option Params) (s : State Reg) :
    Prop where
  doc : s.docOf name = some s.view.doc
  params : params = some s.view.params

theorem docEdit_shows (hs : Sound tokens s)
    (h : s.docEdit (.qreg name) = some t) :
    SameContents s t ∧ t.Distinct ∧
      (forall other, t.storedOf other = s.storedOf other) ∧
      Shows name (s.storedOf name) t := by
  unfold docEdit at h
  rcases Option.bind_eq_some_iff.mp h with ⟨⟨id, u⟩, hu, hrest⟩
  rcases Option.bind_eq_some_iff.mp hrest with ⟨v, hv, hrest⟩
  rcases Option.bind_eq_some_iff.mp hrest with ⟨ctx, hread, heq⟩
  cases heq
  rcases docGetScintilla_same hs hu with
    ⟨hsame, hdistinct, hstored, _, hid⟩
  rcases setDocPointer_shows hv with ⟨hbodies, hview⟩
  have hparams : SameBodies v (v.setViewParams ctx.params) :=
    ⟨⟨rfl, rfl, rfl, rfl, rfl, rfl, rfl, rfl, rfl, rfl⟩, fun _ => rfl⟩
  rcases (hbodies.trans hparams).sameContents with
    ⟨hsame', hstored', hdocs⟩
  refine ⟨hsame.trans hsame', hdistinct.of_docs hdocs, ?_, ?_⟩
  · intro other
    rw [hstored', hstored]
  · constructor
    · rw [hdocs, hid]
      show _ = some v.view.doc
      rw [hview]
    · rw [<- hstored name, <- (hbodies.sameContents).2.1 name]
      unfold storedOf
      rw [hread]
      rfl

/-- Text is appended to the register which is shown. -/
theorem appendText_appends {str : Bytes} (hs : Sound tokens s)
    (hshows : s.docOf name = some s.view.doc) (hstr : str ≠ []) :
    (forall other, (s.appendText str).read (.qreg other) =
        s.read (.qreg other)) ∧
      (s.appendText str).view = s.view ∧
      (s.appendText str).bodyOf (some s.view.doc) =
        ((s.bodyOf (some s.view.doc)).1 ++ str,
          (s.bodyOf (some s.view.doc)).1 ::
            (s.bodyOf (some s.view.doc)).2) ∧
      (forall other, other ≠ name ->
        (s.appendText str).contentsOf other = s.contentsOf other) := by
  have hothers : forall id, id ≠ s.view.doc ->
      (s.appendText str).bodyOf (some id) = s.bodyOf (some id) := by
    intro id hid
    unfold bodyOf appendText
    dsimp only
    rw [if_neg hstr]
    unfold setDocument
    dsimp only
    rw [Function.update_of_ne hid]
  have hread : forall other, (s.appendText str).read (.qreg other) =
      s.read (.qreg other) :=
    fun other => (appendText_owners str s).1.read (.qreg other)
  refine ⟨hread, (appendText_owners str s).2, ?_, ?_⟩
  · unfold bodyOf appendText
    dsimp only
    rw [if_neg hstr]
    unfold setDocument
    dsimp only
    rw [Function.update_self]
  · intro other hne
    unfold contentsOf
    rw [hread]
    cases hother : s.read (.qreg other) with
    | none => rfl
    | some ctx =>
        refine congrArg some ?_
        dsimp only
        cases hdoc : ctx.doc with
        | none => rfl
        | some id =>
            apply hothers
            rintro rfl
            have hid : s.docOf other = some s.view.doc := by
              unfold docOf
              rw [hother]
              exact hdoc
            exact hne (hs.distinct other name _ hid hshows)

/-!
## Steps which keep all texts
-/

/-- Texts and documents are kept, `stored` are the stored parameters afterwards,
and `new` are the tokens that are pushed. -/
structure Steps (tokens : List (Token Reg)) (stored : Reg -> Option Params)
    (new : List (Token Reg)) (s t : State Reg) : Prop where
  sound : Sound tokens t
  same : SameContents s t
  stored : forall name, t.storedOf name = stored name
  shape : SameShape s t
  undo : t.undo = onto (recorded s new) s.undo

theorem Steps.trans {stored stored' : Reg -> Option Params}
    {earlier later : List (Token Reg)} (h : Steps tokens stored earlier s t)
    (h' : Steps tokens stored' later t u) :
    Steps tokens stored' (later ++ earlier) s u := by
  constructor
  · exact h'.sound
  · exact h.same.trans h'.same
  · exact h'.stored
  · exact h.shape.trans h'.shape
  · rw [h'.undo, h.undo, h.shape.recorded, onto_onto, recorded_append]

theorem Steps.refl (h : Sound tokens s) :
    Steps tokens s.storedOf [] s s := by
  refine ⟨h, SameContents.refl s, fun _ => rfl, SameShape.refl s, ?_⟩
  rw [recorded_nil]
  rfl

theorem Keeps.undo_onto {place : Place Reg} (h : Keeps place tokens s t) :
    t.undo = onto (recorded s []) s.undo := by
  rw [recorded_nil, h.undo]
  rfl

theorem docUpdate_steps (h : Sound tokens s) (hvalid : s.Valid (.qreg name)) :
    Yields (s.docUpdate (.qreg name)) (fun t =>
      Steps tokens (fun other => if other = name then some s.view.params
        else s.storedOf other) [] s t ∧ t.view = s.view) := by
  rcases docUpdate_keeps h.counted hvalid with ⟨t, ht, hkeeps⟩
  rcases docUpdate_updates ht with ⟨hsame, hdocs, hstored, hview⟩
  refine ⟨t, ht, ⟨⟨hkeeps.counted, h.distinct.of_docs hdocs⟩, hsame, hstored,
    hkeeps.shape, hkeeps.undo_onto⟩, hview⟩

/-- The parameters of the register that is edited are stored. -/
theorem updateCurrent_steps (h : Sound tokens s) :
    Yields s.updateCurrent (fun t =>
      Steps tokens s.paramsOf [] s t ∧ t.view = s.view) := by
  unfold updateCurrent
  cases hcurrent : s.current with
  | none =>
      have hsame : s.paramsOf = s.storedOf := by
        funext other
        unfold paramsOf
        rw [hcurrent, if_neg (by simp)]
      rw [hsame]
      exact Yields.some ⟨Steps.refl h, rfl⟩
  | some name =>
      have hparams : s.paramsOf = fun other =>
          if other = name then some s.view.params else s.storedOf other := by
        funext other
        unfold paramsOf
        rw [hcurrent]
        by_cases hname : other = name
        · rw [if_pos (by rw [hname]), if_pos hname]
        · rw [if_neg (by simpa using fun heq => hname heq.symm),
            if_neg hname]
      rw [hparams]
      exact docUpdate_steps h (h.counted.currentValid hcurrent)

theorem docEdit_steps (h : Sound tokens s) (hvalid : s.Valid (.qreg name)) :
    Yields (s.docEdit (.qreg name)) (fun t =>
      Steps tokens s.storedOf [] s t ∧ Shows name (s.storedOf name) t) := by
  rcases docEdit_keeps h.counted hvalid with ⟨t, ht, hkeeps⟩
  rcases docEdit_shows h ht with ⟨hsame, hdistinct, hstored, hshows⟩
  exact ⟨t, ht, ⟨⟨hkeeps.counted, hdistinct⟩, hsame, hstored, hkeeps.shape,
    hkeeps.undo_onto⟩, hshows⟩

theorem editCurrent_steps (h : Sound tokens s) :
    Yields s.editCurrent (fun t =>
      Steps tokens s.storedOf [] s t ∧
        forall name, s.current = some name ->
          Shows name (s.storedOf name) t) := by
  unfold editCurrent
  cases hcurrent : s.current with
  | none =>
      refine Yields.some ⟨Steps.refl h, ?_⟩
      intro name hname
      cases hname
  | some name =>
      apply (docEdit_steps h (h.counted.currentValid hcurrent)).mono
      rintro t ⟨hsteps, hshows⟩
      refine ⟨hsteps, ?_⟩
      intro other hother
      cases hother
      exact hshows

omit [DecidableEq Reg] in
theorem push_view (token : Token Reg) (s : State Reg) :
    (s.push token).view = s.view ∧ (s.push token).docs = s.docs := by
  unfold push
  split
  · split
    · exact ⟨rfl, rfl⟩
    · exact ⟨rfl, rfl⟩
  · exact ⟨rfl, rfl⟩

/-- The tokens which are pushed are not counted here. -/
theorem push_steps (h : Sound tokens s) (token : Token Reg) :
    Steps tokens s.storedOf [token] s (s.push token) ∧
      (s.push token).view = s.view := by
  rcases push_fields token s with ⟨hshape, hheld, hrefs, hnext, _⟩
  rcases push_view token s with ⟨hview, hdocs⟩
  have hread : forall name, (s.push token).read (.qreg name) =
      s.read (.qreg name) := fun name => push_read token (.qreg name) s
  have hdocOf : forall name, (s.push token).docOf name = s.docOf name := by
    intro name
    unfold docOf
    rw [hread]
  have hbody : (fun ctx : TecoDoc => (s.push token).bodyOf ctx.doc) =
      fun ctx => s.bodyOf ctx.doc := by
    funext ctx
    unfold bodyOf
    rw [hdocs]
  refine ⟨⟨⟨?_, h.distinct.of_docs hdocOf⟩, ⟨⟨?_, ?_⟩, ?_, ?_⟩, ?_, hshape,
    push_undo token s⟩, hview⟩
  · apply hshape.counted h.counted
    · rw [hrefs, hheld]
      exact h.counted.exact
    · rw [hrefs, hnext]
      exact h.counted.fresh
  · rw [hnext]
  · intro id _
    unfold bodyOf
    rw [hdocs]
  · intro name
    unfold contentsOf
    rw [hread, hbody]
  · intro name id hid
    rw [hdocOf]
    exact hid
  · intro name
    unfold storedOf
    rw [hread]

theorem docUndoReset_steps (h : Sound tokens s)
    (hvalid : s.Valid (.qreg name)) :
    Yields (s.docUndoReset (.qreg name)) (fun t => exists params,
      s.storedOf name = some params ∧
        Steps tokens s.storedOf [.params (.qreg name) params] s t ∧
          t.view = s.view) := by
  rcases hvalid.read with ⟨ctx, hread⟩
  unfold docUndoReset
  rw [hread]
  apply Yields.some
  refine ⟨ctx.params, ?_, push_steps h _⟩
  unfold storedOf
  rw [hread]
  rfl

theorem docUndoEdit_steps (h : Sound tokens s)
    (hvalid : s.Valid (.qreg name)) :
    Yields (s.docUndoEdit (.qreg name)) (fun t => exists id params,
      s.storedOf name = some params ∧ t.docOf name = some id ∧
        Steps tokens s.storedOf [.edit id params] s t ∧
          t.view = s.view) := by
  rcases hvalid.read with ⟨ctx, hread⟩
  unfold docUndoEdit
  rw [hread]
  apply Yields.bind (Yields.some rfl)
  rintro _ rfl
  rcases docGetScintilla_keeps h.counted hvalid with
    ⟨⟨id, u⟩, hu, hkeeps, _⟩
  rcases docGetScintilla_same h hu with
    ⟨hsame, hdistinct, hstored, hview, hid⟩
  have hsteps : Steps tokens s.storedOf [] s u :=
    ⟨⟨hkeeps.counted, hdistinct⟩, hsame, hstored, hkeeps.shape,
      hkeeps.undo_onto⟩
  have hpush := push_steps hsteps.sound (.edit id ctx.params)
  rw [hu]
  apply Yields.some
  refine ⟨id, ctx.params, ?_, ?_, ?_, ?_⟩
  · unfold storedOf
    rw [hread]
    rfl
  · exact hpush.1.same.docs name id hid
  · have hboth := hsteps.trans hpush.1
    exact ⟨hboth.sound, hboth.same,
      fun other => (hboth.stored other).trans (hstored other), hboth.shape,
      hboth.undo⟩
  · exact hpush.2.trans hview

/-!
## Appending
-/

/-- The tokens by which the register that is edited is shown again.  `params` are
those of `name` if it is this register. -/
def EditTokens (name : Reg) (params : Params) (s t : State Reg)
    (new : List (Token Reg)) : Prop :=
  (s.currentMustUndo = false ∧ new = []) ∨
    exists current id own, s.current = some current ∧
      new = [.edit id own] ∧ t.docOf current = some id ∧
        (current = name -> own = params)

theorem undoEditCurrent_steps {params : Params} (h : Sound tokens s)
    (hstored : s.storedOf name = some params) :
    Yields s.undoEditCurrent (fun t => exists new,
      EditTokens name params s t new ∧
        Steps tokens s.storedOf new s t ∧ t.view = s.view) := by
  unfold undoEditCurrent
  cases hcurrent : s.current with
  | none =>
      refine Yields.some ⟨[], Or.inl ⟨?_, rfl⟩, Steps.refl h, rfl⟩
      unfold currentMustUndo
      rw [hcurrent]
  | some current =>
      apply Yields.ite
      · intro _
        apply (docUndoEdit_steps h (h.counted.currentValid hcurrent)).mono
        rintro t ⟨id, own, hown, hid, hsteps, hview⟩
        refine ⟨[.edit id own], Or.inr ⟨current, id, own, hcurrent, rfl, hid,
          ?_⟩, hsteps, hview⟩
        rintro rfl
        rw [hstored] at hown
        cases hown
        rfl
      · intro hmust
        exact Yields.some ⟨[], Or.inl ⟨by simpa using hmust, rfl⟩,
          Steps.refl h, rfl⟩

theorem SameShape.currentMustUndo (h : SameShape s t) :
    t.currentMustUndo = s.currentMustUndo := by
  unfold State.currentMustUndo
  rw [h.current]
  cases s.current with
  | none => rfl
  | some name =>
      dsimp only
      cases hfind : s.find name with
      | none =>
          cases hfind' : t.find name with
          | none => rfl
          | some qreg =>
              rcases h.symm.find hfind' with ⟨qreg', hqreg', _⟩
              rw [hfind] at hqreg'
              cases hqreg'
      | some qreg =>
          rcases h.find hfind with ⟨qreg', hqreg', hmust, _⟩
          rw [hqreg']
          exact hmust

theorem EditTokens.mono {params : Params} {s' : State Reg}
    {new : List (Token Reg)} (h : EditTokens name params s t new)
    (hshape : SameShape s' s) (hdocs : forall name id,
      t.docOf name = some id -> u.docOf name = some id) :
    EditTokens name params s' u new := by
  rcases h with ⟨hmust, hnew⟩ | ⟨current, id, own, hcurrent, hnew, hid, hown⟩
  · exact Or.inl ⟨hshape.currentMustUndo.symm.trans hmust, hnew⟩
  · exact Or.inr ⟨current, id, own, hshape.current.symm.trans hcurrent, hnew,
      hdocs current id hid, hown⟩

/-- The parameters of the view are stored for the register. -/
theorem plainUndoAppend_steps (h : Sound tokens s)
    (hvalid : s.Valid (.qreg name)) :
    Yields (s.plainUndoAppend name) (fun t => exists new,
      EditTokens name s.view.params s t new ∧
        Steps tokens (fun other => if other = name then some s.view.params
          else s.storedOf other)
          (.viewUndo :: .params (.qreg name) s.view.params :: new) s t ∧
        t.view = s.view) := by
  apply Yields.bind (docUpdate_steps h hvalid)
  rintro u ⟨hu, huview⟩
  have hname : u.storedOf name = some s.view.params := by
    rw [hu.stored, if_pos rfl]
  apply Yields.bind (undoEditCurrent_steps hu.sound hname)
  rintro v ⟨new, hnew, hv, hvview⟩
  have huv := hu.trans hv
  apply Yields.bind (docUndoReset_steps hv.sound (huv.shape.valid hvalid))
  rintro w ⟨params, hparams, hw, hwview⟩
  rw [hv.stored, hname] at hparams
  cases hparams
  have huw := huv.trans hw
  rcases push_steps hw.sound .viewUndo with ⟨hx, hxview⟩
  have hall := huw.trans hx
  apply Yields.some
  refine ⟨new, ?_, ⟨hall.sound, hall.same, ?_, hall.shape, ?_⟩, ?_⟩
  · exact hnew.mono hu.shape (fun other id hid =>
      hx.same.docs other id (hw.same.docs other id hid))
  · intro other
    rw [hx.stored, hw.stored, hv.stored, hu.stored]
  · rw [hall.undo, List.append_nil]
    rfl
  · rw [hxview, hwview, hvview, huview]

/-- What is known after a string has been appended. -/
structure Appended (tokens : List (Token Reg)) (qreg : QReg Reg)
    (str : Bytes) (s t : State Reg) : Prop where
  sound : Sound tokens t
  shape : SameShape s t
  text : exists id body, t.docOf qreg.name = some id ∧
    s.contentsOf qreg.name = some body ∧
      t.bodyOf (some id) = (body.1 ++ str, body.1 :: body.2)
  others : forall other, other ≠ qreg.name ->
    t.contentsOf other = s.contentsOf other
  stored : forall other, t.storedOf other =
    if other = qreg.name ∧ qreg.mustUndo then some s.view.params
      else s.paramsOf other
  view : forall current, s.current = some current ->
    t.view.params = s.view.params
  undo : qreg.mustUndo = true -> exists id own new,
    t.docOf qreg.name = some id ∧
      EditTokens qreg.name s.view.params s t new ∧
        t.undo = onto (recorded s (.edit id own :: .viewUndo ::
          .params (.qreg qreg.name) s.view.params :: new)) s.undo

theorem contentsOf_docOf {id : DocId} (hid : s.docOf name = some id) :
    s.contentsOf name = some (s.bodyOf (some id)) := by
  rcases Option.bind_eq_some_iff.mp hid with ⟨ctx, hread, hdoc⟩
  unfold contentsOf
  rw [hread]
  dsimp only [Option.map_some]
  rw [hdoc]

/-- A text has grown.  The parameters of the register that is edited have been
stored, and it is shown again. -/
structure Grown (tokens : List (Token Reg)) (name : Reg) (str : Bytes)
    (s t : State Reg) : Prop where
  sound : Sound tokens t
  shape : SameShape s t
  undo : t.undo = s.undo
  text : exists id body, t.docOf name = some id ∧
    s.contentsOf name = some body ∧
      t.bodyOf (some id) = (body.1 ++ str, body.1 :: body.2)
  others : forall other, other ≠ name ->
    t.contentsOf other = s.contentsOf other
  docs : forall other id, s.docOf other = some id -> t.docOf other = some id
  stored : forall other, t.storedOf other = s.paramsOf other
  view : forall current, s.current = some current ->
    t.view.params = s.view.params

theorem append_grown {str : Bytes} (h : Sound tokens s)
    (hvalid : s.Valid (.qreg name)) (hstr : str ≠ []) :
    Yields (do
        let s <- s.updateCurrent
        let s <- s.docEdit (.qreg name)
        (s.appendText str).editCurrent)
      (Grown tokens name str s) := by
  apply Yields.bind (updateCurrent_steps h)
  rintro u ⟨hu, huview⟩
  apply Yields.bind (docEdit_steps hu.sound (hu.shape.valid hvalid))
  rintro v ⟨hv, hshows⟩
  have huv := hu.trans hv
  rcases appendText_appends hv.sound hshows.doc hstr with
    ⟨hread, hview, hbody, hothers⟩
  have hkeeps : Keeps (.qreg name) tokens v (v.appendText str) :=
    appendText_keeps hv.sound.counted str
  have hdocOf : forall other, (v.appendText str).docOf other =
      v.docOf other := by
    intro other
    unfold docOf
    rw [hread]
  have hstoredOf : forall other, (v.appendText str).storedOf other =
      v.storedOf other := by
    intro other
    unfold storedOf
    rw [hread]
  have hsound : Sound tokens (v.appendText str) :=
    ⟨hkeeps.counted, hv.sound.distinct.of_docs hdocOf⟩
  apply (editCurrent_steps hsound).mono
  rintro t ⟨ht, hagain⟩
  have hstored : forall other, t.storedOf other = s.paramsOf other := by
    intro other
    rw [ht.stored, hstoredOf, hv.stored, hu.stored]
  have hshown : (v.appendText str).docOf name = some v.view.doc := by
    rw [hdocOf]
    exact hshows.doc
  refine ⟨ht.sound, huv.shape.trans (hkeeps.shape.trans ht.shape), ?_, ?_, ?_,
    ?_, hstored, ?_⟩
  · rw [ht.undo, recorded_nil]
    show (v.appendText str).undo = s.undo
    rw [hkeeps.undo, huv.undo]
    show onto (recorded s []) s.undo = s.undo
    rw [recorded_nil]
    rfl
  · refine ⟨v.view.doc, v.bodyOf (some v.view.doc),
      ht.same.docs name _ hshown, ?_, ?_⟩
    · rw [<- huv.same.contents name]
      exact contentsOf_docOf hshows.doc
    · rw [ht.same.texts.bodies _ (hsound.counted.allocated hshown), hbody]
  · intro other hne
    rw [ht.same.contents, hothers other hne, huv.same.contents]
  · intro other id hid
    apply ht.same.docs
    rw [hdocOf]
    exact huv.same.docs other id hid
  · intro current hcurrent
    have hcurrent' : (v.appendText str).current = some current := by
      rw [hkeeps.shape.current, huv.shape.current]
      exact hcurrent
    have hparams := (hagain current hcurrent').params
    rw [hstoredOf, hv.stored, hu.stored] at hparams
    unfold paramsOf at hparams
    rw [if_pos hcurrent] at hparams
    exact (Option.some.inj hparams).symm

theorem plainAppendString_appended {qreg : QReg Reg} {str : Bytes}
    (h : Sound tokens s) (hfind : s.find qreg.name = some qreg)
    (hstr : str ≠ []) :
    Yields (s.plainAppendString qreg.name str)
      (Appended tokens qreg str s) := by
  have hvalid : s.Valid (.qreg qreg.name) := by
    rw [valid_qreg, hfind]
    rfl
  unfold plainAppendString
  rw [if_neg hstr, hfind]
  apply Yields.bind (Yields.some rfl)
  rintro _ rfl
  have hundo : Yields
      (if qreg.mustUndo then s.plainUndoAppend qreg.name else some s)
      (fun t => exists pushed, (qreg.mustUndo = true -> exists new,
          EditTokens qreg.name s.view.params s t new ∧ pushed = .viewUndo ::
            .params (.qreg qreg.name) s.view.params :: new) ∧
        Steps tokens (fun other =>
          if other = qreg.name ∧ qreg.mustUndo then some s.view.params
            else s.storedOf other) pushed s t ∧
        t.view = s.view) := by
    apply Yields.ite
    · intro hmust
      apply (plainUndoAppend_steps h hvalid).mono
      rintro t ⟨new, hnew, hsteps, hview⟩
      refine ⟨_, fun _ => ⟨new, hnew, rfl⟩, ?_, hview⟩
      refine ⟨hsteps.sound, hsteps.same, ?_, hsteps.shape, hsteps.undo⟩
      intro other
      rw [hsteps.stored]
      by_cases hname : other = qreg.name
      · rw [if_pos hname, if_pos ⟨hname, hmust⟩]
      · rw [if_neg hname, if_neg (fun hboth => hname hboth.1)]
    · intro hmust
      have hrefl := Steps.refl h
      refine Yields.some ⟨[], fun h => absurd h hmust, ?_, rfl⟩
      refine ⟨h, hrefl.same, ?_, hrefl.shape, hrefl.undo⟩
      intro other
      rw [if_neg (fun hboth => hmust hboth.2)]
  apply Yields.bind hundo
  rintro u ⟨pushed, hpushed, hu, huview⟩
  have hparams : forall other, u.paramsOf other =
      if other = qreg.name ∧ qreg.mustUndo then some s.view.params
        else s.paramsOf other := by
    intro other
    unfold paramsOf
    rw [hu.shape.current, huview, hu.stored]
    by_cases hcurrent : s.current = some other
    · rw [if_pos hcurrent, if_pos hcurrent]
      split <;> rfl
    · rw [if_neg hcurrent, if_neg hcurrent]
  have hlast : forall v, Grown tokens qreg.name str u v ->
      Yields (if qreg.mustUndo then v.docUndoEdit (.qreg qreg.name)
        else some v) (Appended tokens qreg str s) := by
    intro v hv
    have hshape := hu.shape.trans hv.shape
    rcases hv.text with ⟨id, body, hid, hbody, htext⟩
    rw [hu.same.contents] at hbody
    have hview : forall current, s.current = some current ->
        v.view.params = s.view.params := by
      intro current hcurrent
      rw [hv.view current (hu.shape.current.trans hcurrent), huview]
    apply Yields.ite
    · intro hmust
      rcases hpushed hmust with ⟨new, hnew, hpush⟩
      apply (docUndoEdit_steps hv.sound (hshape.valid hvalid)).mono
      rintro t ⟨id', own, _, hid', ht, htview⟩
      have hidt := ht.same.docs _ _ hid
      constructor
      · exact ht.sound
      · exact hshape.trans ht.shape
      · refine ⟨id, body, hidt, hbody, ?_⟩
        rw [ht.same.texts.bodies _ (hv.sound.counted.allocated hid), htext]
      · intro other hne
        rw [ht.same.contents, hv.others other hne, hu.same.contents]
      · intro other
        rw [ht.stored, hv.stored, hparams]
      · intro current hcurrent
        rw [htview, hview current hcurrent]
      · intro _
        refine ⟨id', own, new, hid', hnew.mono (SameShape.refl s) ?_, ?_⟩
        · intro other id hother
          exact ht.same.docs _ _ (hv.docs _ _ hother)
        · rw [ht.undo, hv.undo, hu.undo, hshape.recorded, onto_onto,
            recorded_append, hpush]
          rfl
    · intro hmust
      apply Yields.some
      constructor
      · exact hv.sound
      · exact hshape
      · exact ⟨id, body, hid, hbody, htext⟩
      · intro other hne
        rw [hv.others other hne, hu.same.contents]
      · intro other
        rw [hv.stored, hparams]
      · exact hview
      · exact fun h => absurd h hmust
  have hrest := Yields.bind
    (append_grown hu.sound (hu.shape.valid hvalid) hstr) hlast
  simpa only [bind_assoc] using hrest

/-!
## Running the tokens of an append
-/

theorem runToken_edit {id : DocId} (h : Counted s tokens)
    (hid : s.docOf name = some id) (params : Params) :
    Yields (s.runToken (.edit id params)) (fun t => Counted t tokens ∧
      SameBodies s t ∧ t.view = { doc := id, params := params }) := by
  rcases Option.bind_eq_some_iff.mp hid with ⟨ctx, hread, hdoc⟩
  rcases setDocPointer_yields h (h.refs_pos hread hdoc) with
    ⟨u, hu, _, _, hcounted⟩
  rcases setDocPointer_shows hu with ⟨hbodies, hview⟩
  have hparams : SameBodies u (u.setViewParams params) :=
    ⟨⟨rfl, rfl, rfl, rfl, rfl, rfl, rfl, rfl, rfl, rfl⟩, fun _ => rfl⟩
  unfold runToken
  dsimp only
  rw [hu]
  apply Yields.some
  refine ⟨⟨hcounted.exact, hcounted.fresh, hcounted.names, hcounted.current⟩,
    hbodies.trans hparams, ?_⟩
  show ({ doc := u.view.doc, params := params } : View) = _
  rw [hview]

omit [DecidableEq Reg] in
theorem viewUndo_undoes {text text' : Bytes} {history : List Bytes}
    (hbody : s.bodyOf (some s.view.doc) = (text', text :: history)) :
    s.viewUndo.bodyOf (some s.view.doc) = (text, history) := by
  have hhistory : (s.docs s.view.doc).history = text :: history :=
    congrArg Prod.snd hbody
  unfold viewUndo bodyOf
  dsimp only
  rw [hhistory]
  unfold setViewParams setDocument
  dsimp only
  rw [Function.update_self]

/-- The register that is edited is shown again at last. -/
theorem runTokens_edits {id : DocId} {body : Bytes × List Bytes}
    {params : Params} {new : List (Token Reg)} (h : Counted s tokens)
    (hid : s.docOf name = some id) (hbody : s.bodyOf (some id) = body)
    (hparams : s.storedOf name = some params)
    (hnew : s.current = some name -> exists id' own,
      new = [.edit id' own] ∧ s.docOf name = some id' ∧ own = params)
    (hothers : s.current ≠ some name -> new = [] ∨ exists current id' own,
      new = [.edit id' own] ∧ s.docOf current = some id') :
    Yields (runTokens new s) (fun t =>
      t.textOf name = some body.1 ∧ t.paramsOf name = some params) := by
  have htext : s.textOf name = some body.1 := by
    unfold textOf
    rw [contentsOf_docOf hid, hbody]
    rfl
  have hedit : forall other id' own, s.docOf other = some id' ->
      (s.current = some name -> own = params) ->
      Yields (runTokens [.edit id' own] s) (fun t =>
        t.textOf name = some body.1 ∧ t.paramsOf name = some params) := by
    intro other id' own hid' hown
    apply Yields.bind (runToken_edit h hid' own)
    rintro t ⟨_, hbodies, hview⟩
    rcases hbodies.sameContents with ⟨hsame, hstored, _⟩
    apply Yields.some
    constructor
    · rw [<- htext]
      unfold textOf
      rw [hsame.contents]
    · unfold paramsOf
      rw [hbodies.owners.current]
      by_cases hcurrent : s.current = some name
      · rw [if_pos hcurrent, hview, hown hcurrent]
      · rw [if_neg hcurrent, hstored, hparams]
  by_cases hcurrent : s.current = some name
  · rcases hnew hcurrent with ⟨id', own, rfl, hid', hown⟩
    exact hedit name id' own hid' (fun _ => hown)
  · rcases hothers hcurrent with rfl | ⟨current, id', own, rfl, hid'⟩
    · apply Yields.some
      refine ⟨htext, ?_⟩
      unfold paramsOf
      rw [if_neg hcurrent, hparams]
    · exact hedit current id' own hid' (fun h => absurd h hcurrent)

/-- The register has got back its text and the parameters of the view. -/
theorem runTokens_append {id : DocId} {body : Bytes × List Bytes}
    {str : Bytes} {own params : Params} {new : List (Token Reg)}
    (h : Counted s tokens) (hid : s.docOf name = some id)
    (hbody : s.bodyOf (some id) = (body.1 ++ str, body.1 :: body.2))
    (hnew : s.current = some name -> exists id' own',
      new = [.edit id' own'] ∧ s.docOf name = some id' ∧ own' = params)
    (hothers : s.current ≠ some name -> new = [] ∨ exists current id' own',
      new = [.edit id' own'] ∧ s.docOf current = some id') :
    Yields (runTokens (.edit id own :: .viewUndo ::
        .params (.qreg name) params :: new) s) (fun t =>
      t.textOf name = some body.1 ∧ t.paramsOf name = some params) := by
  apply Yields.bind (runToken_edit h hid own)
  rintro u ⟨hu, hubodies, huview⟩
  rcases hubodies.sameContents with ⟨_, _, hudocs⟩
  rcases viewUndo_keeps hu with ⟨hv, hvowners⟩
  have hvread : forall other, u.viewUndo.read (.qreg other) =
      s.read (.qreg other) := by
    intro other
    rw [hvowners.read, hubodies.owners.read]
  have hvbody : u.viewUndo.bodyOf (some id) = body := by
    have hubody : u.bodyOf (some u.view.doc) =
        (body.1 ++ str, body.1 :: body.2) := by
      rw [huview, hubodies.bodies]
      exact hbody
    have hundone := viewUndo_undoes hubody
    rw [huview] at hundone
    exact hundone
  apply Yields.bind (Yields.some (show u.viewUndo = u.viewUndo from rfl))
  rintro _ rfl
  rcases Option.bind_eq_some_iff.mp hid with ⟨ctx, hread, hdoc⟩
  have hreadv := hvread name
  rw [hread] at hreadv
  have hwrite := write_keeps hv hreadv
    (show ({ ctx with params := params } : TecoDoc).doc = ctx.doc from rfl)
  have hrun : u.viewUndo.runToken (.params (.qreg name) params) =
      some (u.viewUndo.write (.qreg name) { ctx with params := params }) := by
    unfold runToken
    dsimp only
    rw [hreadv]
    rfl
  rcases write_params hreadv
    (show u.viewUndo.write (.qreg name) { ctx with params := params } = _
      from rfl) with ⟨_, hwdocs, hwstored⟩
  have hwdocOf : forall other,
      (u.viewUndo.write (.qreg name) { ctx with params := params }).docOf
        other = s.docOf other := by
    intro other
    rw [hwdocs]
    unfold docOf
    rw [hvread]
  have hwcurrent : (u.viewUndo.write (.qreg name)
      { ctx with params := params }).current = s.current :=
    hwrite.shape.current.trans
      (hvowners.current.trans hubodies.owners.current)
  show Yields (u.viewUndo.runToken (.params (.qreg name) params) >>=
    runTokens new) _
  rw [hrun]
  apply runTokens_edits hwrite.counted
  · rw [hwdocOf]
    exact hid
  · exact hvbody
  · rw [hwstored, if_pos rfl]
  · rw [hwcurrent, hwdocOf]
    exact hnew
  · rw [hwcurrent]
    simp only [hwdocOf]
    exact hothers

/-- Appending is undone. -/
theorem undoPop_appended {qreg : QReg Reg} {str : Bytes}
    {rest : List (List (Token Reg))} (h : Appended tokens qreg str s t)
    (hfind : s.find qreg.name = some qreg) (hmust : qreg.mustUndo = true)
    (henabled : s.undoEnabled = true) (hundo : s.undo = [] :: rest) :
    Yields t.undoPop (fun u => u.textOf qreg.name = s.textOf qreg.name ∧
      u.paramsOf qreg.name = some s.view.params) := by
  rcases h.text with ⟨id, body, hid, hbody, htext⟩
  rcases h.undo hmust with ⟨id', own, new, hid', hnew, htundo⟩
  rw [hid] at hid'
  cases hid'
  have hgroup : t.undo = (.edit id own :: .viewUndo ::
      .params (.qreg qreg.name) s.view.params :: new) :: rest := by
    rw [htundo, hundo]
    unfold recorded
    rw [if_pos henabled]
    show (_ ++ []) :: rest = _
    rw [List.append_nil]
  have hpop : t.undoPop = runTokens (.edit id own :: .viewUndo ::
      .params (.qreg qreg.name) s.view.params :: new)
        { t with undo := rest } := by
    unfold undoPop
    rw [hgroup]
  have holdText : s.textOf qreg.name = some body.1 := by
    unfold textOf
    rw [hbody]
    rfl
  have hcounted : Counted { t with undo := rest } tokens :=
    ⟨h.sound.counted.exact, h.sound.counted.fresh, h.sound.counted.names,
      h.sound.counted.current⟩
  rw [hpop, holdText]
  apply runTokens_append hcounted hid htext
  · intro hcurrent
    have hcurrent' : s.current = some qreg.name :=
      h.shape.current.symm.trans hcurrent
    rcases hnew with ⟨hnone, _⟩ | ⟨current, id', own', hcur, heq, hid', hown⟩
    · unfold currentMustUndo at hnone
      rw [hcurrent'] at hnone
      dsimp only at hnone
      rw [hfind] at hnone
      exact absurd (hmust.symm.trans hnone) (by decide)
    · rw [hcurrent'] at hcur
      cases hcur
      exact ⟨id', own', heq, hid', hown rfl⟩
  · intro _
    rcases hnew with ⟨_, heq⟩ | ⟨current, id', own', _, heq, hid', _⟩
    · exact Or.inl heq
    · exact Or.inr ⟨current, id', own', heq, hid'⟩

/-!
## Setting
-/

/-- A document that is shown is either that of the place or a new one. -/
theorem docEdit_texts {place : Place Reg} (h : s.docEdit place = some t) :
    SameTexts s t ∧ (s.read place = some .init ->
      s.nextDoc <= t.view.doc) := by
  unfold docEdit at h
  rcases Option.bind_eq_some_iff.mp h with ⟨⟨id, u⟩, hu, hrest⟩
  rcases Option.bind_eq_some_iff.mp hrest with ⟨v, hv, hrest⟩
  rcases Option.bind_eq_some_iff.mp hrest with ⟨ctx', _, heq⟩
  cases heq
  rcases setDocPointer_shows hv with ⟨hbodies, hview⟩
  have hnew : SameTexts s u ∧
      (s.read place = some .init -> s.nextDoc <= id) := by
    unfold docGetScintilla at hu
    rcases Option.bind_eq_some_iff.mp hu with ⟨ctx, hread, hget⟩
    cases hdoc : ctx.doc with
    | some id' =>
        rw [hdoc] at hget
        cases hget
        refine ⟨SameTexts.refl _, ?_⟩
        intro hinit
        rw [hread] at hinit
        cases hinit
        cases hdoc
    | none =>
        rw [hdoc] at hget
        have heq : (s.nextDoc, s.createDocument.2.write place
            { ctx with doc := some s.nextDoc }) = (id, u) := Option.some.inj hget
        have hid : s.nextDoc = id := congrArg Prod.fst heq
        have hu' : s.createDocument.2.write place
            { ctx with doc := some s.nextDoc } = u := congrArg Prod.snd heq
        refine ⟨⟨?_, ?_⟩, fun _ => Nat.le_of_eq hid⟩
        · rw [<- hu', write_nextDoc]
          exact Nat.le_succ _
        · intro other hother
          have hdocs : u.docs = s.createDocument.2.docs := by
            rw [<- hu']
            cases place <;> rfl
          unfold bodyOf
          dsimp only
          rw [hdocs]
          show ((Function.update s.docs s.nextDoc _ other).text,
            (Function.update s.docs s.nextDoc _ other).history) = _
          rw [Function.update_of_ne (Nat.ne_of_lt hother)]
  constructor
  · apply hnew.1.trans
    refine ⟨Nat.le_of_eq hbodies.owners.nextDoc.symm, ?_⟩
    intro other _
    exact hbodies.bodies other
  · intro hnone
    show s.nextDoc <= v.view.doc
    rw [hview]
    exact hnew.2 hnone

theorem docUpdate_texts {place : Place Reg}
    (h : s.docUpdate place = some t) : SameTexts s t := by
  unfold docUpdate at h
  rcases Option.bind_eq_some_iff.mp h with ⟨ctx, _, heq⟩
  cases heq
  refine ⟨Nat.le_of_eq (write_nextDoc _ _ s).symm, ?_⟩
  intro id _
  cases place <;> rfl

/-- The texts of other documents remain when a string is set. -/
theorem docSetString_texts {place : Place Reg} {str : Bytes}
    (h : s.docSetString place str = some t) : SameTexts s t := by
  unfold docSetString at h
  rcases Option.bind_eq_some_iff.mp h with ⟨u, hu, hrest⟩
  rcases Option.bind_eq_some_iff.mp hrest with ⟨ctx, hread, hrest⟩
  rcases Option.bind_eq_some_iff.mp hrest with ⟨v, hv, hrest⟩
  rcases Option.bind_eq_some_iff.mp hrest with ⟨w, hw, hlast⟩
  have hsu : SameTexts s u := by
    unfold updateCurrent at hu
    cases hcurrent : s.current with
    | none =>
        rw [hcurrent] at hu
        cases hu
        exact SameTexts.refl s
    | some name =>
        rw [hcurrent] at hu
        exact docUpdate_texts hu
  have huv : SameTexts u (v.write place .init) := by
    rcases docScintillaRelease_same hv with ⟨hbodies, _⟩
    constructor
    · rw [write_nextDoc, hbodies.owners.nextDoc]
    · intro id _
      rw [<- hbodies.bodies id]
      cases place <;> rfl
  rcases docEdit_texts hw with ⟨hvw, hnew⟩
  have hsw := hsu.trans (huv.trans hvw)
  have hview : s.nextDoc <= w.view.doc := by
    refine Nat.le_trans (hsu.trans huv).nextDoc (hnew ?_)
    apply read_write_self
    rcases docScintillaRelease_same hv with ⟨hbodies, _⟩
    apply hbodies.owners.shape.valid
    unfold Valid
    rw [hread]
    rfl
  have happend : SameTexts s (w.appendText str) := by
    constructor
    · rw [(appendText_owners str w).1.nextDoc]
      exact hsw.nextDoc
    · intro id hid
      have hne : id ≠ w.view.doc := Nat.ne_of_lt (Nat.lt_of_lt_of_le hid hview)
      rw [<- hsw.bodies id hid]
      unfold bodyOf appendText
      dsimp only
      split
      · rfl
      · unfold setDocument
        dsimp only
        rw [Function.update_of_ne hne]
  apply happend.trans
  unfold editCurrent at hlast
  cases hcurrent : (w.appendText str).current with
  | none =>
      rw [hcurrent] at hlast
      cases hlast
      exact SameTexts.refl _
  | some name =>
      rw [hcurrent] at hlast
      exact (docEdit_texts hlast).1

/-- The token for the document of a register. -/
theorem undoObjectPush_pushes (h : s.undoObjectPush (.qreg name) = some t) :
    SameTexts s t ∧ t.undo =
      onto (recorded s [.document (.qreg name) (s.docOf name)]) s.undo := by
  unfold undoObjectPush at h
  split at h
  case isFalse hdisabled =>
    cases h
    refine ⟨SameTexts.refl s, ?_⟩
    unfold recorded
    rw [if_neg hdisabled]
    rfl
  case isTrue henabled =>
    rcases Option.bind_eq_some_iff.mp h with ⟨ctx, hread, hrest⟩
    rcases Option.bind_eq_some_iff.mp hrest with ⟨u, hu, heq⟩
    cases heq
    rcases docScintillaRef_same hu with ⟨hbodies, _⟩
    rcases push_fields (.document (.qreg name) ctx.doc) u with
      ⟨_, _, _, hnext, _⟩
    rcases push_view (.document (.qreg name) ctx.doc) u with ⟨_, hdocs⟩
    have hdoc : s.docOf name = ctx.doc := by
      unfold docOf
      rw [hread]
      rfl
    constructor
    · constructor
      · rw [hnext, hbodies.owners.nextDoc]
      · intro id _
        rw [<- hbodies.bodies id]
        unfold bodyOf
        rw [hdocs]
    · rw [push_undo, hbodies.owners.shape.recorded, hbodies.owners.undo, hdoc]

theorem contentsOf_valid (hvalid : s.Valid (.qreg name)) :
    s.contentsOf name = some (s.bodyOf (s.docOf name)) := by
  rcases hvalid.read with ⟨ctx, hread⟩
  unfold contentsOf docOf
  rw [hread]
  rfl

theorem Counted.of_owns {tokens' : List (Token Reg)} (h : Counted s tokens)
    (howns : ofOwners Token.owns tokens' = ofOwners Token.owns tokens) :
    Counted s tokens' := by
  refine ⟨?_, h.fresh, h.names, h.current⟩
  rw [howns]
  exact h.exact

/-- What is known after a string has been set that can be undone. -/
structure SetTo (name : Reg) (s t : State Reg) : Prop where
  shape : SameShape s t
  counted : Counted t t.undo.flatten
  undo : exists doc new, s.contentsOf name = some (t.bodyOf doc) ∧
    (s.current = some name -> exists id,
      doc = some id ∧ new = [.edit id s.view.params]) ∧
    (s.current ≠ some name -> new = []) ∧
    t.undo = onto (recorded s (.document (.qreg name) doc ::
      .params (.qreg name) s.view.params :: new)) s.undo

theorem plainSetString_sets {qreg : QReg Reg} (h : Sound s.undo.flatten s)
    (hfind : s.find qreg.name = some qreg) (hmust : qreg.mustUndo = true)
    (str : Bytes) :
    Yields (s.plainSetString qreg.name str) (SetTo qreg.name s) := by
  have hvalid : s.Valid (.qreg qreg.name) := by
    rw [valid_qreg, hfind]
    rfl
  unfold plainSetString
  rw [hfind]
  apply Yields.bind (Yields.some rfl)
  rintro _ rfl
  rw [if_pos hmust]
  unfold docUndoSetString
  simp only [bind_assoc]
  apply Yields.bind (docUpdate_steps h hvalid)
  rintro u ⟨hu, huview⟩
  have hvalidU := hu.shape.valid hvalid
  have hstored : u.storedOf qreg.name = some s.view.params := by
    rw [hu.stored, if_pos rfl]
  have hedit : Yields
      (if u.currentMustUndo ∧
          u.current.map Place.qreg = some (.qreg qreg.name) then
        u.docUndoEdit (.qreg qreg.name)
      else some u)
      (fun v => exists new,
        (s.current = some qreg.name -> exists id,
          v.docOf qreg.name = some id ∧ new = [.edit id s.view.params]) ∧
        (s.current ≠ some qreg.name -> new = []) ∧
        Steps s.undo.flatten u.storedOf new u v) := by
    apply Yields.ite
    · rintro ⟨_, hcurrent⟩
      apply (docUndoEdit_steps hu.sound hvalidU).mono
      rintro v ⟨id, params, hparams, hid, hv, _⟩
      rw [hstored] at hparams
      cases hparams
      refine ⟨_, fun _ => ⟨id, hid, rfl⟩, ?_, hv⟩
      intro hother
      rw [hu.shape.current] at hcurrent
      rcases Option.map_eq_some_iff.mp hcurrent with ⟨name, hname, heq⟩
      cases heq
      exact absurd hname hother
    · intro hother
      refine Yields.some ⟨[], ?_, fun _ => rfl, Steps.refl hu.sound⟩
      intro hcurrent
      apply absurd _ hother
      rw [hu.shape.currentMustUndo, hu.shape.current]
      constructor
      · unfold currentMustUndo
        rw [hcurrent]
        dsimp only
        rw [hfind]
        exact hmust
      · rw [hcurrent]
        rfl
  apply Yields.bind hedit
  rintro v ⟨new, hnew, hnone, hv⟩
  have hvalidV := hv.shape.valid hvalidU
  apply Yields.bind (docUndoReset_steps hv.sound hvalidV)
  rintro w ⟨params, hparams, hw, _⟩
  rw [hv.stored, hstored] at hparams
  cases hparams
  have hsw := hu.trans (hv.trans hw)
  have hvalidW := hsw.shape.valid hvalid
  rcases hvalidW.read with ⟨ctx, hread⟩
  rcases undoObjectPush_records hw.sound.counted hread with
    ⟨x, hx, hrecords, _⟩
  rcases undoObjectPush_pushes hx with ⟨hwx, hundo⟩
  rw [hx]
  apply Yields.bind (Yields.some rfl)
  rintro _ rfl
  have hvalidX := hrecords.shape.valid hvalidW
  rcases docSetString_keeps hrecords.counted hvalidX str with ⟨t, ht, hkeeps⟩
  have htundo : t.undo = onto (recorded s
      (.document (.qreg qreg.name) (w.docOf qreg.name) ::
        .params (.qreg qreg.name) s.view.params :: new)) s.undo := by
    rw [hkeeps.undo, hundo, hsw.undo, hsw.shape.recorded, onto_onto,
      recorded_append, List.append_nil]
    rfl
  have hdoc : w.docOf qreg.name = ctx.doc := by
    unfold docOf
    rw [hread]
    rfl
  have hnewOwns : ofOwners Token.owns new = 0 := by
    by_cases hcurrent : s.current = some qreg.name
    · rcases hnew hcurrent with ⟨id, _, rfl⟩
      rfl
    · rw [hnone hcurrent]
      rfl
  refine ⟨t, ht, hsw.shape.trans (hrecords.shape.trans hkeeps.shape), ?_, ?_⟩
  · apply hkeeps.counted.of_owns
    rw [htundo, flatten_onto, hsw.shape.recorded, ofOwners_append,
      ofOwners_append]
    congr 1
    unfold recorded
    split
    · simp only [ofOwners_cons, ofOwners_nil, Token.owns, ofOption_none,
        hnewOwns, hdoc, add_zero]
    · rfl
  · refine ⟨w.docOf qreg.name, new, ?_, ?_, hnone, ?_⟩
    · rw [<- hsw.same.contents, contentsOf_valid hvalidW]
      congr 1
      cases hdoc : w.docOf qreg.name with
      | none => rfl
      | some id =>
          have hlt := hw.sound.counted.allocated hdoc
          exact ((hwx.trans (docSetString_texts ht)).bodies id hlt).symm
    · intro hcurrent
      rcases hnew hcurrent with ⟨id, hid, heq⟩
      exact ⟨id, hw.same.docs _ id hid, heq⟩
    · exact htundo

/-!
## Running the tokens of a set
-/

/-- What running some tokens of a register does to it. -/
structure Restores (name : Reg) (doc : Option DocId) (s t : State Reg) :
    Prop where
  bodies : forall id, t.bodyOf (some id) = s.bodyOf (some id)
  current : t.current = s.current
  doc : t.docOf name = doc

theorem runToken_document {doc : Option DocId}
    (h : s.runToken (.document (.qreg name) doc) = some t) :
    Restores name doc s t ∧ t.Valid (.qreg name) := by
  unfold runToken at h
  rcases Option.bind_eq_some_iff.mp h with ⟨ctx, hread, hrest⟩
  rcases Option.bind_eq_some_iff.mp hrest with ⟨u, hu, heq⟩
  cases heq
  rcases docScintillaRelease_same hu with ⟨hbodies, _⟩
  have hvalid : u.Valid (.qreg name) := by
    apply hbodies.owners.shape.valid
    unfold Valid
    rw [hread]
    rfl
  have hself := read_write_self hvalid { ctx with doc := doc }
  refine ⟨⟨fun id => hbodies.bodies id, hbodies.owners.current, ?_⟩, ?_⟩
  · unfold docOf
    rw [hself]
    rfl
  · unfold Valid
    rw [hself]
    rfl

/-- Afterwards the register has the document and the parameters. -/
theorem runTokens_set {doc : Option DocId} {params : Params}
    {new : List (Token Reg)}
    (hnew : s.current = some name -> exists id,
      doc = some id ∧ new = [.edit id params])
    (hnone : s.current ≠ some name -> new = [])
    (h : runTokens (.document (.qreg name) doc ::
      .params (.qreg name) params :: new) s = some t) :
    t.textOf name = some (s.bodyOf doc).1 ∧
      t.paramsOf name = some params := by
  rcases Option.bind_eq_some_iff.mp h with ⟨u, hu, hrest⟩
  rcases Option.bind_eq_some_iff.mp hrest with ⟨v, hv, hlast⟩
  rcases runToken_document hu with ⟨hrestores, hvalid⟩
  unfold runToken at hv
  rcases Option.bind_eq_some_iff.mp hv with ⟨ctx, hread, heq⟩
  cases heq
  rcases write_params hread
    (show u.write (.qreg name) { ctx with params := params } = _ from rfl)
    with ⟨hsame, hdocs, hstored⟩
  have htext : (u.write (.qreg name) { ctx with params := params }).textOf
      name = some (s.bodyOf doc).1 := by
    unfold textOf
    rw [hsame.contents, contentsOf_valid hvalid, hrestores.doc]
    cases doc with
    | none => rfl
    | some id =>
        rw [hrestores.bodies]
        rfl
  have hown : (u.write (.qreg name) { ctx with params := params }).storedOf
      name = some params := by
    rw [hstored, if_pos rfl]
  by_cases hcurrent : s.current = some name
  · rcases hnew hcurrent with ⟨id, _, rfl⟩
    rcases Option.bind_eq_some_iff.mp hlast with ⟨w, hw, heq⟩
    cases heq
    rcases Option.bind_eq_some_iff.mp hw with ⟨x, hx, heq⟩
    cases heq
    rcases setDocPointer_shows hx with ⟨hbodies, _⟩
    constructor
    · rw [<- htext]
      unfold textOf
      rw [<- hbodies.sameContents.1.contents]
      rfl
    · unfold paramsOf
      have hcurrent' : (x.setViewParams params).current = some name :=
        hbodies.owners.current.trans (hrestores.current.trans hcurrent)
      rw [if_pos hcurrent']
      rfl
  · rw [hnone hcurrent] at hlast
    cases hlast
    refine ⟨htext, ?_⟩
    unfold paramsOf
    have hcurrent' : (u.write (.qreg name) { ctx with params := params }).current
        ≠ some name := by
      show u.current ≠ some name
      rw [hrestores.current]
      exact hcurrent
    rw [if_neg hcurrent', hown]

/-- Setting is undone. -/
theorem undoPop_set {qreg : QReg Reg} {rest : List (List (Token Reg))}
    (h : SetTo qreg.name s t) (hfind : s.find qreg.name = some qreg)
    (hmust : qreg.mustUndo = true) (henabled : s.undoEnabled = true)
    (hundo : s.undo = [] :: rest) :
    Yields t.undoPop (fun u => u.textOf qreg.name = s.textOf qreg.name ∧
      u.paramsOf qreg.name = some s.view.params) := by
  rcases h.undo with ⟨doc, new, hcontents, hnew, hnone, htundo⟩
  have hgroup : t.undo = (.document (.qreg qreg.name) doc ::
      .params (.qreg qreg.name) s.view.params :: new) :: rest := by
    rw [htundo, hundo]
    unfold recorded
    rw [if_pos henabled]
    show (_ ++ []) :: rest = _
    rw [List.append_nil]
  have hpop : t.undoPop = runTokens (.document (.qreg qreg.name) doc ::
      .params (.qreg qreg.name) s.view.params :: new)
        { t with undo := rest } := by
    unfold undoPop
    rw [hgroup]
  have hname : qreg.name ∈ t.site.names := by
    rw [h.shape.site]
    exact mem_site_names hfind hmust
  have hcounted := h.counted
  rw [hgroup] at hcounted
  have hrunnable : Runnable (fun site => site.FitsUndo []) none
      (.document (.qreg qreg.name) doc ::
        .params (.qreg qreg.name) s.view.params :: new) rest.flatten
      { t with undo := rest } := by
    refine ⟨⟨hcounted.exact, hcounted.fresh, hcounted.names,
      hcounted.current⟩, ⟨hname, hname, ?_⟩, ?_⟩
    · by_cases hcurrent : s.current = some qreg.name
      · rcases hnew hcurrent with ⟨id, hid, rfl⟩
        exact ⟨hid, trivial⟩
      · rw [hnone hcurrent]
        trivial
    · intro id hid
      cases hid
  rcases runTokens_runnable hrunnable with ⟨u, hu, _⟩
  have holdText : s.textOf qreg.name = some (t.bodyOf doc).1 := by
    unfold textOf
    rw [hcontents]
    rfl
  have hcurrent : t.current = s.current := h.shape.current
  rw [hpop, holdText]
  refine ⟨u, hu, runTokens_set (s := { t with undo := rest }) ?_ ?_ hu⟩
  · show t.current = some qreg.name -> _
    rw [hcurrent]
    exact hnew
  · show t.current ≠ some qreg.name -> _
    rw [hcurrent]
    exact hnone

/-!
## Restored and local
-/

/-- A string that has been set is rubbed out. -/
def SetRestored (name : Reg) (str : Bytes) (s : State Reg) : Prop :=
  exists t u, s.nextCharacter.plainSetString name str = some t ∧
    t.undoPop = some u ∧ u.textOf name = s.textOf name ∧
      u.paramsOf name = s.paramsOf name

/-- A string that has been appended is rubbed out. -/
def AppendRestored (name : Reg) (str : Bytes) (s : State Reg) : Prop :=
  exists t u, s.nextCharacter.plainAppendString name str = some t ∧
    t.undoPop = some u ∧ u.textOf name = s.textOf name ∧
      u.paramsOf name = s.paramsOf name

/-- A string that has been appended changes one text and nothing else. -/
def AppendLocal (name : Reg) (str : Bytes) (s : State Reg) : Prop :=
  exists t, s.plainAppendString name str = some t ∧
    t.textOf name = (s.textOf name).map (fun text => text ++ str) ∧
    (forall other, other ≠ name -> t.textOf other = s.textOf other) ∧
      forall other, t.paramsOf other = s.paramsOf other

/-- The parameters of the view are those of the register. -/
theorem paramsOf_view {qreg : QReg Reg}
    (hfind : s.find qreg.name = some qreg) :
    s.paramsOf qreg.name = some s.view.params <->
      s.current = some qreg.name ∨ s.view.params = qreg.string.params := by
  have hread : s.read (.qreg qreg.name) = some qreg.string := by
    simp only [read, hfind, Option.map_some]
  have hstored : s.storedOf qreg.name = some qreg.string.params := by
    unfold storedOf
    rw [hread]
    rfl
  unfold paramsOf
  by_cases hcurrent : s.current = some qreg.name
  · rw [if_pos hcurrent]
    exact ⟨fun _ => Or.inl hcurrent, fun _ => rfl⟩
  · rw [if_neg hcurrent, hstored, Option.some.injEq]
    constructor
    · intro h
      exact Or.inr h.symm
    · rintro (h | h)
      · exact absurd h hcurrent
      · exact h.symm

section Character

variable (henabled : s.undoEnabled = true)

include henabled

omit [DecidableEq Reg] in
theorem nextCharacter_eq :
    s.nextCharacter = { s with undo := [] :: s.undo } :=
  if_pos henabled

theorem nextCharacter_sound (h : Sound s.undo.flatten s) :
    Sound s.nextCharacter.undo.flatten s.nextCharacter := by
  rw [nextCharacter_eq henabled]
  exact ⟨⟨h.counted.exact, h.counted.fresh, h.counted.names,
    h.counted.current⟩, h.distinct⟩

theorem nextCharacter_same (name : Reg) :
    s.nextCharacter.find name = s.find name ∧
      s.nextCharacter.textOf name = s.textOf name ∧
        s.nextCharacter.paramsOf name = s.paramsOf name ∧
          s.nextCharacter.view = s.view ∧
            s.nextCharacter.undoEnabled = true ∧
              s.nextCharacter.undo = [] :: s.undo := by
  rw [nextCharacter_eq henabled]
  exact ⟨rfl, rfl, rfl, rfl, henabled, rfl⟩

end Character

theorem set_restored {qreg : QReg Reg} (h : Sound s.undo.flatten s)
    (hfind : s.find qreg.name = some qreg) (hmust : qreg.mustUndo = true)
    (henabled : s.undoEnabled = true) (str : Bytes) :
    SetRestored qreg.name str s <->
      s.paramsOf qreg.name = some s.view.params := by
  rcases nextCharacter_same henabled qreg.name with
    ⟨hfind', htext, hparams, hview, henabled', hundo⟩
  rw [hfind] at hfind'
  have hsound := nextCharacter_sound henabled h
  rcases plainSetString_sets hsound hfind' hmust str with ⟨t, ht, hset⟩
  rcases undoPop_set hset hfind' hmust henabled' hundo with
    ⟨u, hu, hutext, huparams⟩
  rw [htext] at hutext
  rw [hview] at huparams
  constructor
  · rintro ⟨t', u', ht', hu', _, hparams'⟩
    rw [ht] at ht'
    cases ht'
    rw [hu] at hu'
    cases hu'
    rw [<- hparams', huparams]
  · intro hsame
    exact ⟨t, u, ht, hu, hutext, huparams.trans hsame.symm⟩

theorem append_restored {qreg : QReg Reg} (h : Sound s.undo.flatten s)
    (hfind : s.find qreg.name = some qreg) (hmust : qreg.mustUndo = true)
    (henabled : s.undoEnabled = true) (str : Bytes)
    (hsame : s.paramsOf qreg.name = some s.view.params) :
    AppendRestored qreg.name str s := by
  rcases nextCharacter_same henabled qreg.name with
    ⟨hfind', htext, hparams, hview, henabled', hundo⟩
  rw [hfind] at hfind'
  have hsound := nextCharacter_sound henabled h
  by_cases hstr : str = []
  · refine ⟨s.nextCharacter, s, ?_, ?_, rfl, rfl⟩
    · unfold plainAppendString
      rw [if_pos hstr]
    · unfold undoPop
      rw [hundo, nextCharacter_eq henabled]
      rfl
  · rcases plainAppendString_appended hsound hfind' hstr with ⟨t, ht, happended⟩
    rcases undoPop_appended happended hfind' hmust henabled' hundo with
      ⟨u, hu, hutext, huparams⟩
    rw [htext] at hutext
    rw [hview] at huparams
    exact ⟨t, u, ht, hu, hutext, huparams.trans hsame.symm⟩

theorem append_local {qreg : QReg Reg} (h : Sound s.undo.flatten s)
    (hfind : s.find qreg.name = some qreg) (str : Bytes) :
    AppendLocal qreg.name str s <-> str = [] ∨ qreg.mustUndo = false ∨
      s.paramsOf qreg.name = some s.view.params := by
  by_cases hstr : str = []
  · constructor
    · exact fun _ => Or.inl hstr
    · intro _
      refine ⟨s, ?_, ?_, fun _ _ => rfl, fun _ => rfl⟩
      · unfold plainAppendString
        rw [if_pos hstr]
      · rw [hstr]
        cases s.textOf qreg.name with
        | none => rfl
        | some text => simp
  · rcases plainAppendString_appended h hfind hstr with ⟨t, ht, happended⟩
    rcases happended.text with ⟨id, body, hid, hbody, htext⟩
    have hcurrent : t.current = s.current := happended.shape.current
    -- The stored parameters are only of interest if the view shows others.
    have hparams : forall other, t.paramsOf other =
        if other = qreg.name ∧ qreg.mustUndo then some s.view.params
          else s.paramsOf other := by
      intro other
      unfold paramsOf
      rw [hcurrent]
      by_cases hother : s.current = some other
      · rw [if_pos hother, if_pos hother, happended.view other hother]
        split <;> rfl
      · rw [if_neg hother, if_neg hother, happended.stored]
        unfold paramsOf
        rw [if_neg hother]
    constructor
    · rintro ⟨t', ht', _, _, hlocal⟩
      rw [ht] at ht'
      cases ht'
      right
      cases hmust : qreg.mustUndo with
      | false => exact Or.inl rfl
      | true =>
          have hown := hlocal qreg.name
          rw [hparams, if_pos ⟨rfl, hmust⟩] at hown
          exact Or.inr hown.symm
    · intro hcondition
      refine ⟨t, ht, ?_, ?_, ?_⟩
      · unfold textOf
        rw [hbody, contentsOf_docOf hid, htext]
        rfl
      · intro other hne
        unfold textOf
        rw [happended.others other hne]
      · intro other
        rw [hparams]
        split
        case isTrue hboth =>
          rcases hcondition with hnil | hmust | hsame
          · exact absurd hnil hstr
          · rw [hmust] at hboth
            exact absurd hboth.2 Bool.false_ne_true
          · rw [hboth.1, hsame]
        case isFalse => rfl

/-- Exactly if the register is shown in the view, or if the view happens to have
its parameters, strings are restored and appended without other effects. -/
theorem strings_restored {qreg : QReg Reg} (h : Sound s.undo.flatten s)
    (hfind : s.find qreg.name = some qreg) (str : Bytes) :
    ((qreg.mustUndo = true ∧ s.undoEnabled = true ->
        SetRestored qreg.name str s ∧ AppendRestored qreg.name str s) ∧
      AppendLocal qreg.name str s) <->
      (qreg.mustUndo = false ∨ (str = [] ∧ s.undoEnabled = false) ∨
        s.current = some qreg.name ∨
          s.view.params = qreg.string.params) := by
  rw [<- paramsOf_view hfind, append_local h hfind str]
  constructor
  · rintro ⟨hrestored, hlocal⟩
    cases hmust : qreg.mustUndo with
    | false => exact Or.inl rfl
    | true =>
        right
        cases henabled : s.undoEnabled with
        | true =>
            right
            have hset := (hrestored ⟨hmust, henabled⟩).1
            exact (set_restored h hfind hmust henabled str).mp hset
        | false =>
            rcases hlocal with hnil | hfalse | hsame
            · exact Or.inl ⟨hnil, rfl⟩
            · rw [hmust] at hfalse
              cases hfalse
            · exact Or.inr hsame
  · rintro (hmust | ⟨hnil, hdisabled⟩ | hsame)
    · constructor
      · rintro ⟨hmust', _⟩
        rw [hmust] at hmust'
        cases hmust'
      · exact Or.inr (Or.inl hmust)
    · constructor
      · rintro ⟨_, henabled⟩
        rw [hdisabled] at henabled
        cases henabled
      · exact Or.inl hnil
    · constructor
      · rintro ⟨hmust, henabled⟩
        exact ⟨(set_restored h hfind hmust henabled str).mpr hsame,
          append_restored h hfind hmust henabled str hsame⟩
      · exact Or.inr (Or.inr hsame)

def notSet : QReg Nat :=
  { name := 0, string := .init, mustUndo := true, external := false }

/-- A buffer is edited.  The view still shows register 1, which has been edited
before, with some parameters.  Register 0 has not been set. -/
def edited (params : Params) : State Nat where
  docs := fun id =>
    if id = 0 then { refs := 2, text := [104, 105], history := [] }
    else { refs := 0, text := [], history := [] }
  nextDoc := 1
  qregs :=
    [notSet,
      { name := 1
        string := { doc := some 0, params := params }
        mustUndo := true
        external := false }]
  current := none
  view := { doc := 0, params := params }
  stack := []
  block := 0
  capacity := 1024
  entry := .init
  popping := []
  undoEnabled := true
  undo := []

theorem edited_sound (params : Params) :
    Sound (edited params).undo.flatten (edited params) := by
  constructor
  · constructor
    · intro id
      have hheld : (edited params).held + ofOwners Token.owns
          (edited params).undo.flatten = {0} + {0} := by
        show 0 + ({0} + 0) + 0 + 0 + {0} + 0 = _
        simp
      rw [hheld, Multiset.count_add, Multiset.count_singleton]
      show (if id = 0 then ({ refs := 2, text := [104, 105], history := [] } :
        Document) else { refs := 0, text := [], history := [] }).refs = _
      by_cases hid : id = 0
      · rw [if_pos hid, if_pos hid]
      · rw [if_neg hid, if_neg hid]
    · intro id hid
      show (if id = 0 then ({ refs := 2, text := [104, 105], history := [] } :
        Document) else { refs := 0, text := [], history := [] }).refs = 0
      rw [if_neg (Nat.ne_of_gt hid)]
    · show [0, 1].Nodup
      decide
    · intro name hname
      cases hname
  · have hdoc : forall name id, (edited params).docOf name = some id ->
        name = 1 := by
      intro name id hid
      unfold docOf State.read State.find edited notSet at hid
      dsimp only at hid
      by_cases hzero : 0 = name
      · subst hzero
        cases hid
      · by_cases hone : 1 = name
        · exact hone.symm
        · simp [hzero, hone] at hid
    intro name other id hname hother
    rw [hdoc name id hname, hdoc other id hother]

/-- Both registers have the same parameters. -/
theorem strings_restored_same :
    (notSet.mustUndo = true ∧ (edited .zero).undoEnabled = true ->
        SetRestored notSet.name [97] (edited .zero) ∧
          AppendRestored notSet.name [97] (edited .zero)) ∧
      AppendLocal notSet.name [97] (edited .zero) := by
  have hfind : (edited .zero).find notSet.name = some notSet := rfl
  exact (strings_restored (edited_sound .zero) hfind [97]).mpr
    (Or.inr (Or.inr (Or.inr rfl)))

/-- Dot has been moved in the register which has been edited before.  The other
one gets its parameters. -/
theorem strings_notRestored :
    ¬ ((notSet.mustUndo = true ∧
          (edited { Params.zero with anchor := 2, dot := 2 }).undoEnabled =
            true ->
        SetRestored notSet.name [97]
            (edited { Params.zero with anchor := 2, dot := 2 }) ∧
          AppendRestored notSet.name [97]
            (edited { Params.zero with anchor := 2, dot := 2 })) ∧
      AppendLocal notSet.name [97]
        (edited { Params.zero with anchor := 2, dot := 2 })) := by
  rintro ⟨_, t, ht, _, _, hparams⟩
  have hrun : ((edited { Params.zero with anchor := 2, dot := 2
      }).plainAppendString 0 [97]).map (fun t => t.paramsOf 0) =
        some (some { Params.zero with anchor := 2, dot := 2 }) := rfl
  have hown := hparams 0
  have hbefore : (edited { Params.zero with anchor := 2, dot := 2
      }).paramsOf 0 = some .zero := rfl
  have happend : (edited { Params.zero with anchor := 2, dot := 2
      }).plainAppendString 0 [97] = some t := ht
  rw [happend, Option.map_some, hown, hbefore] at hrun
  exact absurd hrun (by decide)

end State

end Documents
end SciTECO
