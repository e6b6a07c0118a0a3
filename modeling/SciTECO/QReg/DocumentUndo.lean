import SciTECO.QReg.DocumentRefs

/-!
# Undo tokens of documents

Tokens refer to registers and to cells of the push-down stack by their address.
They can be run as long as these exist, which depends on the tokens that are
run before them.
-/

namespace SciTECO
namespace Documents

open References

variable {Reg : Type} [DecidableEq Reg]

/-- A token that refers to a cell of the push-down stack. -/
def Token.ofCell : Token Reg -> Bool
  | .document (.cell _ _) _ => true
  | .params (.cell _ _) _ => true
  | _ => false

/-- The registers and the cells of the push-down stack that tokens can refer
to. -/
structure Site (Reg : Type) where
  names : List Reg
  current : Option Reg
  block : Nat
  length : Nat

namespace Site

variable {site site' : Site Reg} {restored : Option DocId}
  {tokens new : List (Token Reg)} {after after' : Site Reg -> Prop}

def Reaches (site : Site Reg) : Place Reg -> Prop
  | .qreg name => name ∈ site.names
  | .cell block index => block = site.block ∧ index < site.length
  | .entry => False

def push (site : Site Reg) : Site Reg :=
  { site with length := site.length + 1 }

def pop (site : Site Reg) : Site Reg :=
  { site with length := site.length - 1 }

def remove (name : Reg) (site : Site Reg) : Site Reg :=
  { site with names := site.names.filter (fun other => other ≠ name) }

/-- Tokens can be run one after another, and what is left meets a condition.
`restored` is the document which has been restored at last. -/
def Fits (after : Site Reg -> Prop) :
    Site Reg -> Option DocId -> List (Token Reg) -> Prop
  | site, _, [] => after site
  | site, _, .document place value :: tokens =>
      site.Reaches place ∧ Fits after site value tokens
  | site, restored, .params place _ :: tokens =>
      site.Reaches place ∧ Fits after site restored tokens
  | site, restored, .edit doc _ :: tokens =>
      restored = some doc ∧ Fits after site none tokens
  | site, _, .viewUndo :: tokens => Fits after site none tokens
  | site, _, .stackRemoveLast :: tokens =>
      0 < site.length ∧ Fits after site.pop none tokens
  | site, _, .stackEntry _ :: tokens => Fits after site.push none tokens
  | site, _, .tableRemove name :: tokens =>
      (name ∈ site.names ∧ site.current ≠ some name) ∧
        Fits after (site.remove name) none tokens

/-- The tokens of all characters can be run. -/
def FitsUndo : Site Reg -> List (List (Token Reg)) -> Prop
  | _, [] => True
  | site, tokens :: undo =>
      Fits (fun site => site.FitsUndo undo) site none tokens

/-- Tokens that do not need a restored document can be run as well if there is
one. -/
theorem Fits.anyRestored (h : Fits after site none tokens) :
    Fits after site restored tokens := by
  induction tokens generalizing restored with
  | nil => exact h
  | cons token tokens ih =>
      cases token with
      | document place value => exact h
      | params place value => exact ⟨h.1, ih h.2⟩
      | edit doc params =>
          rcases h with ⟨hnone, _⟩
          cases hnone
      | viewUndo => exact h
      | stackRemoveLast => exact h
      | stackEntry entry => exact h
      | tableRemove name => exact h

/-- There may be more registers. -/
structure Within (site site' : Site Reg) : Prop where
  names : forall name, name ∈ site.names -> name ∈ site'.names
  current : site'.current = site.current
  block : site'.block = site.block
  length : site'.length = site.length

omit [DecidableEq Reg] in
theorem Within.reaches (h : Within site site') {place : Place Reg}
    (hplace : site.Reaches place) : site'.Reaches place := by
  cases place with
  | qreg name => exact h.names name hplace
  | cell block index =>
      simp only [Reaches] at hplace ⊢
      rw [h.block, h.length]
      exact hplace
  | entry => exact hplace

theorem Within.remove (h : Within site site') (name : Reg) :
    Within (site.remove name) (site'.remove name) := by
  constructor
  · intro other hother
    simp only [Site.remove, List.mem_filter] at hother ⊢
    exact ⟨h.names other hother.1, hother.2⟩
  · exact h.current
  · exact h.block
  · exact h.length

theorem Fits.mono (hfits : Fits after site restored tokens)
    (h : Within site site')
    (hafter : forall site site', Within site site' -> after site ->
      after' site') : Fits after' site' restored tokens := by
  induction tokens generalizing site site' restored with
  | nil => exact hafter site site' h hfits
  | cons token tokens ih =>
      cases token with
      | document place value => exact ⟨h.reaches hfits.1, ih hfits.2 h⟩
      | params place value => exact ⟨h.reaches hfits.1, ih hfits.2 h⟩
      | edit doc params => exact ⟨hfits.1, ih hfits.2 h⟩
      | viewUndo => exact ih hfits h
      | stackRemoveLast =>
          constructor
          · rw [h.length]
            exact hfits.1
          · apply ih hfits.2
            constructor
            case length =>
              show site'.length - 1 = site.length - 1
              rw [h.length]
            case names => exact h.names
            case current => exact h.current
            case block => exact h.block
      | stackEntry entry =>
          apply ih hfits
          constructor
          case length =>
            show site'.length + 1 = site.length + 1
            rw [h.length]
          case names => exact h.names
          case current => exact h.current
          case block => exact h.block
      | tableRemove name =>
          constructor
          · rw [h.current]
            exact ⟨h.names name hfits.1.1, hfits.1.2⟩
          · exact ih hfits.2 (h.remove name)

theorem FitsUndo.mono {undo : List (List (Token Reg))}
    (hfits : site.FitsUndo undo) (h : Within site site') :
    site'.FitsUndo undo := by
  induction undo generalizing site site' with
  | nil => trivial
  | cons tokens undo ih =>
      exact Fits.mono hfits h (fun _ _ hwithin hundo => ih hundo hwithin)

/-- The array of the stack may be moved if no token refers to it. -/
theorem Fits.moved {block : Nat} (hfits : Fits after site restored tokens)
    (hcells : forall token, token ∈ tokens -> token.ofCell = false)
    (hafter : forall site : Site Reg, after site ->
      after' { site with block := block }) :
    Fits after' { site with block := block } restored tokens := by
  induction tokens generalizing site restored with
  | nil => exact hafter site hfits
  | cons token tokens ih =>
      have hrest : forall token, token ∈ tokens -> token.ofCell = false :=
        fun token htoken => hcells token (List.mem_cons_of_mem _ htoken)
      have hcell := hcells token List.mem_cons_self
      have hreaches : forall place : Place Reg, site.Reaches place ->
          (forall block index, place ≠ .cell block index) ->
          ({ site with block := block } : Site Reg).Reaches place := by
        intro place hplace hne
        cases place with
        | qreg name => exact hplace
        | cell block' index => exact absurd rfl (hne block' index)
        | entry => exact hplace
      cases token with
      | document place value =>
          refine ⟨hreaches place hfits.1 ?_, ih hfits.2 hrest⟩
          rintro block' index rfl
          cases hcell
      | params place value =>
          refine ⟨hreaches place hfits.1 ?_, ih hfits.2 hrest⟩
          rintro block' index rfl
          cases hcell
      | edit doc params => exact ⟨hfits.1, ih hfits.2 hrest⟩
      | viewUndo => exact ih hfits hrest
      | stackRemoveLast => exact ⟨hfits.1, ih hfits.2 hrest⟩
      | stackEntry entry => exact ih hfits hrest
      | tableRemove name => exact ⟨hfits.1, ih hfits.2 hrest⟩

theorem FitsUndo.moved {block : Nat} {undo : List (List (Token Reg))}
    (hfits : site.FitsUndo undo)
    (hcells : forall token, token ∈ undo.flatten -> token.ofCell = false) :
    ({ site with block := block } : Site Reg).FitsUndo undo := by
  induction undo generalizing site with
  | nil => trivial
  | cons tokens undo ih =>
      have hboth : forall token, token ∈ tokens ++ undo.flatten ->
          token.ofCell = false := hcells
      apply Fits.moved hfits
      · intro token htoken
        exact hboth token (List.mem_append_left _ htoken)
      · intro site hundo
        apply ih hundo
        intro token htoken
        exact hboth token (List.mem_append_right _ htoken)

/-- Tokens which can be run where some places can be reached. -/
def Safe (places : Place Reg -> Prop) (new : List (Token Reg)) : Prop :=
  forall (after : Site Reg -> Prop) (site : Site Reg)
    (tokens : List (Token Reg)),
    (forall place, places place -> site.Reaches place) ->
    Fits after site none tokens -> Fits after site none (new ++ tokens)

theorem Safe.nil {places : Place Reg -> Prop} : Safe places [] :=
  fun _ _ _ _ hfits => hfits

theorem Safe.append {places : Place Reg -> Prop}
    {later earlier : List (Token Reg)} (hlater : Safe places later)
    (hearlier : Safe places earlier) : Safe places (later ++ earlier) := by
  intro after site tokens hplaces hfits
  rw [List.append_assoc]
  exact hlater after site _ hplaces
    (hearlier after site tokens hplaces hfits)

theorem Safe.mono {places places' : Place Reg -> Prop} (h : Safe places new)
    (hplaces : forall place, places place -> places' place) :
    Safe places' new := by
  intro after site tokens hreaches hfits
  exact h after site tokens
    (fun place hplace => hreaches place (hplaces place hplace)) hfits

/-- Pushing tokens onto those of the latest character. -/
theorem Safe.fitsUndo {places : Place Reg -> Prop} (h : Safe places new)
    (hplaces : forall place, places place -> site.Reaches place)
    {undo : List (List (Token Reg))} (hfits : site.FitsUndo undo) :
    site.FitsUndo (State.onto new undo) := by
  cases new with
  | nil => exact hfits
  | cons token new =>
      cases undo with
      | nil =>
          have hnew := h (fun site => site.FitsUndo []) site [] hplaces trivial
          rw [List.append_nil] at hnew
          exact hnew
      | cons tokens undo => exact h _ site tokens hplaces hfits

theorem Safe.restoring (place : Place Reg) (value : Option DocId)
    (params : Params) :
    Safe (fun other => other = place)
      [.document place value, .params place params] := by
  intro after site tokens hplaces hfits
  have hplace := hplaces place rfl
  exact ⟨hplace, hplace, hfits.anyRestored⟩

theorem Safe.exchanging (place : Place Reg) (value : Option DocId)
    (params : Params) :
    Safe (fun other => other = place)
      [.params place params, .document place value] := by
  intro after site tokens hplaces hfits
  have hplace := hplaces place rfl
  exact ⟨hplace, hplace, hfits.anyRestored⟩

end Site

theorem State.SetTokens.safe {place : Place Reg} {new : List (Token Reg)}
    (h : State.SetTokens place new) :
    Site.Safe (fun other => other = place) new := by
  cases h with
  | plain value params => exact Site.Safe.restoring place value params
  | edited name id params params' hplace =>
      intro after site tokens hplaces hfits
      have hreaches := hplaces place rfl
      exact ⟨hreaches, hreaches, rfl, hfits⟩

namespace State

variable {s t : State Reg} {tokens : List (Token Reg)}
  {restored : Option DocId} {after : Site Reg -> Prop}

def site (s : State Reg) : Site Reg :=
  { names := (s.qregs.filter QReg.mustUndo).map QReg.name
    current := s.current
    block := s.block
    length := s.stack.length }

omit [DecidableEq Reg] in
theorem mustUndo_names (qregs : List (QReg Reg)) :
    (qregs.filter QReg.mustUndo).map QReg.name =
      ((qregs.map (fun qreg =>
        (qreg.name, qreg.mustUndo, qreg.external))).filter
          (fun kind => kind.2.1)).map Prod.fst := by
  induction qregs with
  | nil => rfl
  | cons qreg qregs ih =>
      rw [List.map_cons, List.filter_cons, List.filter_cons]
      cases hmust : qreg.mustUndo with
      | true =>
          simp only [if_true, List.map_cons]
          rw [ih]
      | false =>
          simp only [Bool.false_eq_true, if_false]
          exact ih

omit [DecidableEq Reg] in
theorem SameShape.site (h : SameShape s t) : t.site = s.site := by
  unfold State.site
  rw [mustUndo_names, mustUndo_names, h.qregs, h.current, h.block, h.stack]

/-- A register whose changes are undone. -/
theorem mem_site_names {name : Reg} {qreg : QReg Reg}
    (hfind : s.find name = some qreg) (hmust : qreg.mustUndo = true) :
    name ∈ s.site.names := by
  have hmem : qreg ∈ s.qregs := List.mem_of_find?_eq_some hfind
  have hname : qreg.name = name := by simpa using List.find?_some hfind
  rw [<- hname]
  exact List.mem_map_of_mem (List.mem_filter.mpr ⟨hmem, hmust⟩)

theorem valid_qreg {name : Reg} :
    s.Valid (.qreg name) <-> (s.find name).isSome = true := by
  simp only [Valid, read, Option.isSome_map]

theorem valid_of_mem {name : Reg} (h : name ∈ s.qregs.map QReg.name) :
    s.Valid (.qreg name) := by
  rcases List.mem_map.mp h with ⟨qreg, hqreg, hname⟩
  simp only [Valid, read, Option.isSome_map, State.find]
  rw [List.find?_isSome]
  exact ⟨qreg, hqreg, by simpa using hname⟩

omit [DecidableEq Reg] in
theorem site_names_sub {name : Reg} (h : name ∈ s.site.names) :
    name ∈ s.qregs.map QReg.name := by
  rcases List.mem_map.mp h with ⟨qreg, hqreg, hname⟩
  rw [<- hname]
  exact List.mem_map_of_mem (List.mem_of_mem_filter hqreg)

/-- What can be reached, can be read. -/
theorem valid_of_reaches {place : Place Reg} (h : s.site.Reaches place) :
    s.Valid place ∧ place ≠ .entry := by
  cases place with
  | qreg name => exact ⟨valid_of_mem (site_names_sub h), by simp⟩
  | cell block index =>
      rcases h with ⟨hblock, hindex⟩
      constructor
      · simp only [Valid, read]
        have hblock' : block = s.block := hblock
        have hindex' : index < s.stack.length := hindex
        rw [if_pos hblock', isSome_getElem?]
        simpa using hindex'
      · simp
  | entry => cases h

/-!
## Running tokens
-/

/-- A token which owns no document. -/
theorem Counted.dropToken {token : Token Reg}
    (h : Counted s (token :: tokens)) (htoken : token.owns = none) :
    Counted s tokens := by
  refine ⟨?_, h.fresh, h.names, h.current⟩
  have hexact := h.exact
  rw [ofOwners_cons, htoken, ofOption_none, zero_add] at hexact
  exact hexact

/-- What tokens leave as it is. -/
structure Beside (s t : State Reg) : Prop where
  entry : t.entry = s.entry
  popping : t.popping = s.popping
  undoEnabled : t.undoEnabled = s.undoEnabled
  undo : t.undo = s.undo

omit [DecidableEq Reg] in
theorem Beside.trans {u : State Reg} (h : Beside s t) (h' : Beside t u) :
    Beside s u :=
  ⟨h'.entry.trans h.entry, h'.popping.trans h.popping,
    h'.undoEnabled.trans h.undoEnabled, h'.undo.trans h.undo⟩

omit [DecidableEq Reg] in
theorem SameOwners.beside (h : SameOwners s t) : Beside s t :=
  ⟨h.entry, h.popping, h.undoEnabled, h.undo⟩

theorem Keeps.beside {place : Place Reg} (h : Keeps place tokens s t)
    (hplace : place ≠ .entry) : Beside s t :=
  ⟨h.entry hplace, h.shape.popping, h.shape.undoEnabled, h.undo⟩

/-- A state in which tokens can be run. -/
structure Runnable (after : Site Reg -> Prop) (restored : Option DocId)
    (new tokens : List (Token Reg)) (s : State Reg) : Prop where
  counted : Counted s (new ++ tokens)
  fits : Site.Fits after s.site restored new
  held : forall id, restored = some id -> id ∈ s.held

theorem viewUndo_keeps (h : Counted s tokens) :
    Counted s.viewUndo tokens ∧ SameOwners s s.viewUndo := by
  unfold viewUndo
  dsimp only
  split
  case h_1 => exact ⟨h, SameOwners.refl s⟩
  case h_2 text history hhistory =>
    have howners : SameOwners s
        ((s.setDocument s.view.doc
          { s.docs s.view.doc with text := text, history := history
            }).setViewParams
          { s.view.params with anchor := text.length, dot := text.length }) :=
      ⟨rfl, rfl, rfl, rfl, rfl, rfl, rfl, rfl, rfl, rfl⟩
    have hrefs : ((s.setDocument s.view.doc
          { s.docs s.view.doc with text := text, history := history
            }).setViewParams { s.view.params with
              anchor := text.length, dot := text.length }).refs = s.refs := by
      show (s.setDocument s.view.doc _).refs = s.refs
      rw [refs_setDocument]
      exact Function.update_eq_self s.view.doc s.refs
    constructor
    · apply howners.counted h
      · rw [hrefs, howners.held rfl]
        exact h.exact
      · rw [hrefs]
        exact h.fresh
    · exact howners

omit [DecidableEq Reg] in
/-- What the last entry of the stack holds. -/
theorem held_dropLast {entry : TecoDoc}
    (hentry : s.stack.getLast? = some entry) :
    s.held = ofOption entry.doc +
      ({ s with stack := s.stack.dropLast } : State Reg).held := by
  have hsplit : s.stack.dropLast ++ [entry] = s.stack :=
    List.dropLast_append_getLast? entry hentry
  have howners : ofOwners TecoDoc.doc s.stack =
      ofOwners TecoDoc.doc s.stack.dropLast + ofOption entry.doc := by
    have happend := ofOwners_append TecoDoc.doc s.stack.dropLast [entry]
    rw [hsplit, ofOwners_cons, ofOwners_nil, add_zero] at happend
    exact happend
  unfold held
  dsimp only
  rw [howners]
  abel

/-- The document of the last entry is given up. -/
theorem releaseLast_yields {entry : TecoDoc} (h : Counted s tokens)
    (hentry : s.stack.getLast? = some entry) :
    Yields (s.docScintillaRelease entry.doc) (fun t => SameOwners s t ∧
      Counted { t with stack := t.stack.dropLast } tokens) := by
  have hexact := h.exact
  rw [held_dropLast hentry, add_assoc] at hexact
  apply (docScintillaRelease_yields hexact h.fresh).mono
  rintro u ⟨howners, hview, hexact', hfresh⟩
  refine ⟨howners, ?_, ?_, ?_, ?_⟩
  · show Exact u.refs _
    unfold held at hexact' ⊢
    dsimp only at hexact' ⊢
    rw [howners.qregs, howners.stack, howners.entry, hview]
    exact hexact'
  · show forall id, u.nextDoc <= id -> u.refs id = 0
    rw [howners.nextDoc]
    exact hfresh
  · show (u.qregs.map QReg.name).Nodup
    rw [howners.qregs]
    exact h.names
  · show forall name, u.current = some name -> (u.find name).isSome
    simp only [State.find, howners.current, howners.qregs]
    exact h.current

theorem stackRemoveLast_yields (h : Counted s tokens)
    (hlength : 0 < s.stack.length) :
    Yields s.stackRemoveLast (fun t =>
      Counted t tokens ∧ t.site = s.site.pop ∧ Beside s t) := by
  have hne : s.stack ≠ [] := List.ne_nil_of_length_pos hlength
  have hlast : s.stack.getLast? = some (s.stack.getLast hne) :=
    List.getLast?_eq_getLast_of_ne_nil hne
  unfold stackRemoveLast
  rw [hlast]
  apply Yields.bind (Yields.some rfl)
  rintro _ rfl
  apply Yields.bind (releaseLast_yields h hlast)
  rintro u ⟨howners, hu⟩
  apply Yields.some
  refine ⟨hu, ?_, howners.entry, howners.popping, howners.undoEnabled,
    howners.undo⟩
  unfold site Site.pop
  dsimp only
  rw [howners.qregs, howners.current, howners.block, howners.stack,
    List.length_dropLast]

/-- An entry returns to the stack together with its document. -/
theorem stackEntry_counted {entry : TecoDoc}
    (h : Counted s (.stackEntry entry :: tokens)) :
    Counted { s with stack := s.stack ++ [entry] } tokens := by
  refine ⟨?_, h.fresh, h.names, h.current⟩
  have hexact := h.exact
  unfold held at hexact ⊢
  dsimp only
  rw [ofOwners_append, ofOwners_cons, ofOwners_nil, add_zero]
  rw [ofOwners_cons] at hexact
  have hcomm : ofOwners (fun qreg => qreg.string.doc) s.qregs +
      (ofOwners TecoDoc.doc s.stack + ofOption entry.doc) +
        ofOption s.entry.doc + {s.view.doc} + ofOwners Token.owns tokens =
      ofOwners (fun qreg => qreg.string.doc) s.qregs +
        ofOwners TecoDoc.doc s.stack + ofOption s.entry.doc + {s.view.doc} +
          (ofOption entry.doc + ofOwners Token.owns tokens) := by abel
  rw [hcomm]
  exact hexact

theorem ofOwners_eraseP {qregs : List (QReg Reg)} {name : Reg}
    {qreg : QReg Reg}
    (hfind : qregs.find? (fun qreg => qreg.name = name) = some qreg) :
    ofOwners (fun qreg => qreg.string.doc) qregs =
      ofOption qreg.string.doc + ofOwners (fun qreg => qreg.string.doc)
        (qregs.eraseP (fun qreg => qreg.name = name)) := by
  induction qregs with
  | nil => cases hfind
  | cons first qregs ih =>
      rw [List.find?_cons] at hfind
      by_cases hfirst : first.name = name
      · simp only [hfirst, decide_true, Option.some.injEq] at hfind
        subst hfind
        rw [List.eraseP_cons_of_pos (by simpa using hfirst), ofOwners_cons]
      · simp only [hfirst, decide_false] at hfind
        rw [List.eraseP_cons_of_neg (by simpa using hfirst), ofOwners_cons,
          ofOwners_cons, ih hfind]
        abel

theorem tableRemove_yields {name : Reg} (h : Counted s tokens)
    (hname : s.Valid (.qreg name)) (hcurrent : s.current ≠ some name) :
    Yields (s.tableRemove name) (fun t =>
      Counted t tokens ∧ Site.Within (s.site.remove name) t.site ∧
        (forall other, other ≠ name -> (s.find other).isSome ->
          (t.find other).isSome) ∧ Beside s t) := by
  simp only [Valid, read, Option.isSome_map] at hname
  rcases Option.isSome_iff_exists.mp hname with ⟨qreg, hfind⟩
  have hexact := h.exact
  unfold held at hexact
  rw [ofOwners_eraseP hfind] at hexact
  have hcomm : ofOption qreg.string.doc +
        ofOwners (fun qreg => qreg.string.doc)
          (s.qregs.eraseP (fun qreg => qreg.name = name)) +
        ofOwners TecoDoc.doc s.stack + ofOption s.entry.doc +
          {s.view.doc} + ofOwners Token.owns tokens =
      ofOption qreg.string.doc +
        (ofOwners (fun qreg => qreg.string.doc)
          (s.qregs.eraseP (fun qreg => qreg.name = name)) +
          ofOwners TecoDoc.doc s.stack + ofOption s.entry.doc +
            {s.view.doc} + ofOwners Token.owns tokens) := by abel
  rw [hcomm] at hexact
  have hothers : forall other, other ≠ name -> (s.find other).isSome ->
      (List.find? (fun qreg => qreg.name = other)
        (s.qregs.eraseP (fun qreg => qreg.name = name))).isSome := by
    intro other hother hfound
    unfold State.find at hfound
    rw [List.find?_isSome] at hfound ⊢
    rcases hfound with ⟨qreg', hmem, heq⟩
    have heq' : qreg'.name = other := by simpa using heq
    refine ⟨qreg', ?_, heq⟩
    apply (List.mem_eraseP_of_neg _).mpr hmem
    rw [decide_eq_true_eq, heq']
    exact hother
  unfold tableRemove
  rw [hfind]
  apply Yields.bind (Yields.some rfl)
  rintro _ rfl
  apply Yields.bind (docScintillaRelease_yields hexact h.fresh)
  rintro u ⟨howners, hview, hexact', hfresh⟩
  apply Yields.some
  constructor
  · constructor
    · show Exact u.refs _
      unfold held
      dsimp only
      rw [howners.qregs, howners.stack, howners.entry, hview]
      exact hexact'
    · show forall id, u.nextDoc <= id -> u.refs id = 0
      rw [howners.nextDoc]
      exact hfresh
    · show ((u.qregs.eraseP (fun qreg => qreg.name = name)).map
        QReg.name).Nodup
      rw [howners.qregs]
      exact h.names.sublist (List.eraseP_sublist.map _)
    · intro other hother
      have hother' : s.current = some other := by
        rw [<- howners.current]
        exact hother
      have hne : other ≠ name := by
        rintro rfl
        exact hcurrent hother'
      simp only [State.find, howners.qregs]
      exact hothers other hne (h.current other hother')
  · constructor
    · constructor
      · intro other hother
        simp only [Site.remove, List.mem_filter, decide_eq_true_eq] at hother
        rcases hother with ⟨hmem, hne⟩
        rcases List.mem_map.mp hmem with ⟨qreg', hqreg', heq⟩
        rw [List.mem_filter] at hqreg'
        rw [<- heq]
        apply List.mem_map_of_mem
        rw [List.mem_filter]
        constructor
        · show qreg' ∈ u.qregs.eraseP (fun qreg => qreg.name = name)
          rw [howners.qregs]
          apply (List.mem_eraseP_of_neg _).mpr hqreg'.1
          rw [decide_eq_true_eq, heq]
          exact hne
        · exact hqreg'.2
      · exact howners.current
      · exact howners.block
      · show u.stack.length = s.stack.length
        rw [howners.stack]
    · constructor
      · intro other hne hfound
        simp only [State.find, howners.qregs]
        exact hothers other hne hfound
      · exact ⟨howners.entry, howners.popping, howners.undoEnabled,
          howners.undo⟩

theorem Within.fits {site site' : Site Reg}
    {undo : List (List (Token Reg))} {new : List (Token Reg)}
    (h : Site.Within site site')
    (hfits : Site.Fits (fun site => site.FitsUndo undo) site restored new) :
    Site.Fits (fun site => site.FitsUndo undo) site' restored new :=
  hfits.mono h (fun _ _ hwithin hundo => hundo.mono hwithin)

/-- Running one token. -/
theorem runToken_runnable {token : Token Reg} {new : List (Token Reg)}
    {undo : List (List (Token Reg))}
    (h : Runnable (fun site => site.FitsUndo undo) restored (token :: new)
      tokens s) :
    Yields (s.runToken token) (fun t => exists restored',
      Runnable (fun site => site.FitsUndo undo) restored' new tokens t ∧
        Beside s t) := by
  have hfits := h.fits
  have hnone : forall u : State Reg, forall id,
      (none : Option DocId) = some id -> id ∈ u.held := by
    intro u id hid
    cases hid
  cases token with
  | document place value =>
      rcases valid_of_reaches hfits.1 with ⟨hvalid, hplace⟩
      rcases hvalid.read with ⟨ctx, hread⟩
      have howned : ofOwners Token.owns (.document place value :: new ++ tokens) =
          ofOption ({ ctx with doc := value } : TecoDoc).doc +
            ofOwners Token.owns (new ++ tokens) := ofOwners_cons _ _ _
      unfold runToken
      dsimp only
      rw [hread]
      apply Yields.bind (Yields.some rfl)
      rintro _ rfl
      apply Yields.bind (release_write_keeps h.counted hread howned)
      intro u hu
      apply Yields.some
      exists value
      constructor
      · constructor
        · exact hu.counted
        · rw [hu.shape.site]
          exact hfits.2
        · intro id hid
          have hvalid' : u.Valid place :=
            (write_shape place _ u).symm.valid (hu.shape.valid hvalid)
          apply mem_held (read_write_self hvalid' _)
          exact hid
      · exact hu.beside hplace
  | params place value =>
      rcases valid_of_reaches hfits.1 with ⟨hvalid, hplace⟩
      rcases hvalid.read with ⟨ctx, hread⟩
      have hcounted : Counted s (new ++ tokens) := h.counted.dropToken rfl
      have hkeeps := write_keeps hcounted hread
        (show ({ ctx with params := value } : TecoDoc).doc = ctx.doc from rfl)
      unfold runToken
      dsimp only
      rw [hread]
      apply Yields.bind (Yields.some rfl)
      rintro _ rfl
      apply Yields.some
      exists restored
      constructor
      · constructor
        · exact hkeeps.counted
        · rw [hkeeps.shape.site]
          exact hfits.2
        · intro id hid
          have hsame : (s.write place { ctx with params := value }).held =
              s.held := held_write_same h.counted.names hread rfl
          rw [hsame]
          exact h.held id hid
      · exact hkeeps.beside hplace
  | edit doc params =>
      have hcounted : Counted s (new ++ tokens) := h.counted.dropToken rfl
      have hpos : 0 < s.refs doc :=
        hcounted.exact.pos
          (Multiset.mem_add.mpr (Or.inl (h.held doc hfits.1)))
      apply Yields.bind (setDocPointer_yields hcounted hpos)
      rintro u ⟨howners, _, hu⟩
      have howners' : SameOwners u (u.setViewParams params) :=
        ⟨rfl, rfl, rfl, rfl, rfl, rfl, rfl, rfl, rfl, rfl⟩
      apply Yields.some
      exists none
      constructor
      · constructor
        · exact ⟨hu.exact, hu.fresh, hu.names, hu.current⟩
        · rw [(howners.trans howners').shape.site]
          exact hfits.2
        · exact hnone _
      · exact (howners.trans howners').beside
  | viewUndo =>
      have hcounted : Counted s (new ++ tokens) := h.counted.dropToken rfl
      rcases viewUndo_keeps hcounted with ⟨hu, howners⟩
      apply Yields.some
      exists none
      constructor
      · constructor
        · exact hu
        · rw [howners.shape.site]
          exact hfits
        · exact hnone _
      · exact howners.beside
  | stackRemoveLast =>
      have hcounted : Counted s (new ++ tokens) := h.counted.dropToken rfl
      apply (stackRemoveLast_yields hcounted hfits.1).mono
      rintro t ⟨ht, hsite, hbeside⟩
      exists none
      constructor
      · constructor
        · exact ht
        · rw [hsite]
          exact hfits.2
        · exact hnone _
      · exact hbeside
  | stackEntry entry =>
      apply Yields.some
      exists none
      constructor
      · constructor
        · exact stackEntry_counted h.counted
        · have hsite : ({ s with stack := s.stack ++ [entry] } :
              State Reg).site = s.site.push := by
            unfold site Site.push
            dsimp only
            rw [List.length_append]
            rfl
          rw [hsite]
          exact hfits
        · exact hnone _
      · exact ⟨rfl, rfl, rfl, rfl⟩
  | tableRemove name =>
      have hcounted : Counted s (new ++ tokens) := h.counted.dropToken rfl
      have hvalid := valid_of_mem (site_names_sub hfits.1.1)
      apply (tableRemove_yields hcounted hvalid hfits.1.2).mono
      rintro t ⟨ht, hwithin, _, hbeside⟩
      exists none
      constructor
      · constructor
        · exact ht
        · exact Within.fits hwithin hfits.2
        · exact hnone _
      · exact hbeside

/-- Running all tokens of a character. -/
theorem runTokens_runnable {new : List (Token Reg)}
    {undo : List (List (Token Reg))}
    (h : Runnable (fun site => site.FitsUndo undo) restored new tokens s) :
    Yields (runTokens new s) (fun t =>
      Counted t tokens ∧ t.site.FitsUndo undo ∧ Beside s t) := by
  induction new generalizing restored s with
  | nil =>
      apply Yields.some
      exact ⟨h.counted, h.fits, rfl, rfl, rfl, rfl⟩
  | cons token new ih =>
      apply Yields.bind (runToken_runnable h)
      rintro u ⟨restored', hu, hbeside⟩
      apply (ih hu).mono
      rintro t ⟨ht, hfits, hbeside'⟩
      exact ⟨ht, hfits, hbeside.trans hbeside'⟩

/-!
## Discarding tokens
-/

theorem discardToken_counted {token : Token Reg}
    (h : Counted s (token :: tokens)) :
    Yields (s.discardToken token) (fun t =>
      Counted t tokens ∧ SameOwners s t) := by
  have hrelease : forall value, token.owns = value ->
      Yields (s.docScintillaRelease value) (fun t =>
        Counted t tokens ∧ SameOwners s t) := by
    intro value hvalue
    have hexact := h.exact
    rw [ofOwners_cons, hvalue, <- add_assoc, add_comm s.held,
      add_assoc] at hexact
    apply (docScintillaRelease_yields hexact h.fresh).mono
    rintro t ⟨howners, hview, hexact', hfresh⟩
    constructor
    · refine ⟨?_, ?_, ?_, ?_⟩
      · rw [howners.held (by rw [hview])]
        exact hexact'
      · rw [howners.nextDoc]
        exact hfresh
      · rw [howners.qregs]
        exact h.names
      · simp only [State.find, howners.current, howners.qregs]
        exact h.current
    · exact howners
  have hnothing : token.owns = none ->
      Yields (some s) (fun t => Counted t tokens ∧ SameOwners s t) :=
    fun htoken => Yields.some ⟨h.dropToken htoken, SameOwners.refl s⟩
  cases token with
  | document place value => exact hrelease value rfl
  | params place value => exact hnothing rfl
  | edit doc params => exact hnothing rfl
  | viewUndo => exact hnothing rfl
  | stackRemoveLast => exact hnothing rfl
  | stackEntry entry => exact hrelease entry.doc rfl
  | tableRemove name => exact hnothing rfl

theorem discardTokens_counted {new : List (Token Reg)}
    (h : Counted s (new ++ tokens)) :
    Yields (discardTokens new s) (fun t =>
      Counted t tokens ∧ SameOwners s t) := by
  induction new generalizing s with
  | nil => exact Yields.some ⟨h, SameOwners.refl s⟩
  | cons token new ih =>
      apply Yields.bind (discardToken_counted h)
      rintro u ⟨hu, howners⟩
      apply (ih hu).mono
      rintro t ⟨ht, howners'⟩
      exact ⟨ht, howners.trans howners'⟩

end State

end Documents
end SciTECO
