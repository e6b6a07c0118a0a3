import SciTECO.Lib.References
import SciTECO.Lib.Yields
import SciTECO.QReg.Documents

/-!
# Owners of documents

Every document is referenced exactly by its owners: the registers, the entries
of the push-down stack, the undo tokens and the register view.
-/

namespace SciTECO
namespace Documents

open References

variable {Reg : Type} [DecidableEq Reg]

/-- The document that a token owns. -/
def Token.owns : Token Reg -> Option DocId
  | .document _ value => value
  | .stackEntry entry => entry.doc
  | _ => none

namespace State

variable {s t : State Reg} {tokens : List (Token Reg)}

/-- The references of everything but the undo tokens. -/
def held (s : State Reg) : Multiset DocId :=
  ofOwners (fun qreg => qreg.string.doc) s.qregs +
    ofOwners TecoDoc.doc s.stack + ofOption s.entry.doc + {s.view.doc}

/-- The counts of the documents. -/
def refs (s : State Reg) : DocId -> Nat := fun id => (s.docs id).refs

/-- The counts are exact, if `tokens` are the undo tokens. -/
structure Counted (s : State Reg) (tokens : List (Token Reg)) : Prop where
  exact : Exact s.refs (s.held + ofOwners Token.owns tokens)
  fresh : forall id, s.nextDoc <= id -> s.refs id = 0
  names : (s.qregs.map QReg.name).Nodup
  current : forall name, s.current = some name -> (s.find name).isSome

/-- What the functions of `doc.c` leave as it is. -/
structure SameShape (s t : State Reg) : Prop where
  qregs : t.qregs.map (fun qreg => (qreg.name, qreg.mustUndo, qreg.external)) =
    s.qregs.map (fun qreg => (qreg.name, qreg.mustUndo, qreg.external))
  current : t.current = s.current
  stack : t.stack.length = s.stack.length
  block : t.block = s.block
  capacity : t.capacity = s.capacity
  popping : t.popping = s.popping
  undoEnabled : t.undoEnabled = s.undoEnabled

omit [DecidableEq Reg] in
theorem SameShape.refl (s : State Reg) : SameShape s s :=
  ⟨rfl, rfl, rfl, rfl, rfl, rfl, rfl⟩

omit [DecidableEq Reg] in
theorem SameShape.trans {u : State Reg} (h : SameShape s t)
    (h' : SameShape t u) : SameShape s u :=
  ⟨h'.qregs.trans h.qregs, h'.current.trans h.current,
    h'.stack.trans h.stack, h'.block.trans h.block,
    h'.capacity.trans h.capacity, h'.popping.trans h.popping,
    h'.undoEnabled.trans h.undoEnabled⟩

/-!
## Reading and writing places
-/

theorem find_map_kind {qregs qregs' : List (QReg Reg)} (name : Reg)
    (h : qregs'.map (fun qreg => (qreg.name, qreg.mustUndo, qreg.external)) =
      qregs.map (fun qreg => (qreg.name, qreg.mustUndo, qreg.external))) :
    (qregs'.find? (fun qreg => qreg.name = name)).map
        (fun qreg => (qreg.name, qreg.mustUndo, qreg.external)) =
      (qregs.find? (fun qreg => qreg.name = name)).map
        (fun qreg => (qreg.name, qreg.mustUndo, qreg.external)) := by
  induction qregs generalizing qregs' with
  | nil =>
      rw [List.map_nil, List.map_eq_nil_iff] at h
      rw [h]
  | cons qreg qregs ih =>
      cases qregs' with
      | nil => cases h
      | cons qreg' qregs' =>
          rw [List.map_cons, List.map_cons, List.cons.injEq] at h
          have hname : qreg'.name = qreg.name := congrArg Prod.fst h.1
          rw [List.find?_cons, List.find?_cons]
          by_cases hfound : qreg.name = name
          · simp only [hname, hfound, decide_true, Option.map_some]
            have hkind := h.1
            rw [hname, hfound] at hkind
            exact congrArg some hkind
          · simp only [hname, hfound, decide_false]
            exact ih h.2

/-- The kind of a register that has been found. -/
theorem SameShape.find (h : SameShape s t) {name : Reg} {qreg : QReg Reg}
    (hfind : s.find name = some qreg) :
    exists qreg', t.find name = some qreg' ∧
      qreg'.mustUndo = qreg.mustUndo ∧ qreg'.external = qreg.external := by
  have hkind := find_map_kind name h.qregs
  unfold State.find at hfind
  rw [hfind] at hkind
  cases hfind' : t.qregs.find? (fun qreg => qreg.name = name) with
  | none =>
      rw [hfind'] at hkind
      cases hkind
  | some qreg' =>
      rw [hfind'] at hkind
      simp only [Option.map_some, Option.some.injEq, Prod.mk.injEq] at hkind
      exact ⟨qreg', hfind', hkind.2.1, hkind.2.2⟩

omit [DecidableEq Reg] in
theorem SameShape.symm (h : SameShape s t) : SameShape t s :=
  ⟨h.qregs.symm, h.current.symm, h.stack.symm, h.block.symm, h.capacity.symm,
    h.popping.symm, h.undoEnabled.symm⟩

/-- The places that can be read. -/
def Valid (s : State Reg) (place : Place Reg) : Prop :=
  (s.read place).isSome

theorem SameShape.valid (h : SameShape s t) {place : Place Reg}
    (hvalid : s.Valid place) : t.Valid place := by
  cases place with
  | qreg name =>
      simp only [Valid, read, Option.isSome_map] at hvalid ⊢
      rcases Option.isSome_iff_exists.mp hvalid with ⟨qreg, hqreg⟩
      rcases h.find hqreg with ⟨qreg', hqreg', _⟩
      rw [hqreg']
      rfl
  | cell block index =>
      simp only [Valid, read] at hvalid ⊢
      rw [h.block]
      by_cases hblock : block = s.block
      · rw [if_pos hblock] at hvalid ⊢
        rw [isSome_getElem?] at hvalid ⊢
        rw [h.stack]
        exact hvalid
      · rw [if_neg hblock] at hvalid
        cases hvalid
  | entry => rfl

theorem Valid.read {place : Place Reg} (h : s.Valid place) :
    exists ctx, s.read place = some ctx :=
  Option.isSome_iff_exists.mp h

theorem updateQReg_of_notMem {qregs : List (QReg Reg)} {name : Reg}
    (h : name ∉ qregs.map QReg.name) (doc : TecoDoc) :
    updateQReg name doc qregs = qregs := by
  induction qregs with
  | nil => rfl
  | cons first qregs ih =>
      rw [List.map_cons, List.mem_cons, not_or] at h
      have hfirst : first.name ≠ name := fun heq => h.1 heq.symm
      have hrest := ih h.2
      simp only [updateQReg, List.map_cons, hfirst, if_false] at hrest ⊢
      rw [hrest]

theorem ofOwners_updateQReg {qregs : List (QReg Reg)} {name : Reg}
    {qreg : QReg Reg} (hnames : (qregs.map QReg.name).Nodup)
    (hfind : qregs.find? (fun qreg => qreg.name = name) = some qreg)
    (doc : TecoDoc) :
    ofOwners (fun qreg => qreg.string.doc) (updateQReg name doc qregs) +
        ofOption qreg.string.doc =
      ofOwners (fun qreg => qreg.string.doc) qregs + ofOption doc.doc := by
  induction qregs with
  | nil => cases hfind
  | cons first qregs ih =>
      rw [List.map_cons, List.nodup_cons] at hnames
      rw [List.find?_cons] at hfind
      by_cases hfirst : first.name = name
      · simp only [hfirst, decide_true, Option.some.injEq] at hfind
        subst hfind
        rw [hfirst] at hnames
        have hothers := updateQReg_of_notMem hnames.1 doc
        unfold updateQReg at hothers ⊢
        rw [List.map_cons, hothers, if_pos hfirst, ofOwners_cons,
          ofOwners_cons]
        abel
      · simp only [hfirst, decide_false] at hfind
        have hrest := ih hnames.2 hfind
        simp only [updateQReg, List.map_cons, hfirst, if_false,
          ofOwners_cons] at hrest ⊢
        rw [add_assoc, hrest, add_assoc]

theorem map_updateQReg {β : Type} (f : QReg Reg -> β)
    (hf : forall qreg doc, f { qreg with string := doc } = f qreg)
    (name : Reg) (doc : TecoDoc) (qregs : List (QReg Reg)) :
    (updateQReg name doc qregs).map f = qregs.map f := by
  unfold updateQReg
  rw [List.map_map]
  apply List.map_congr_left
  intro qreg _
  show f (if qreg.name = name then { qreg with string := doc } else qreg) =
    f qreg
  by_cases hname : qreg.name = name
  · rw [if_pos hname, hf]
  · rw [if_neg hname]

theorem write_shape (place : Place Reg) (doc : TecoDoc) (s : State Reg) :
    SameShape s (s.write place doc) := by
  cases place with
  | qreg name =>
      constructor
      · exact map_updateQReg _ (fun _ _ => rfl) name doc s.qregs
      all_goals rfl
  | cell block index =>
      constructor
      case stack => exact List.length_set
      all_goals rfl
  | entry => exact ⟨rfl, rfl, rfl, rfl, rfl, rfl, rfl⟩

/-- Writing to a place changes what is held there. -/
theorem held_write {place : Place Reg} {ctx : TecoDoc}
    (hnames : (s.qregs.map QReg.name).Nodup)
    (hread : s.read place = some ctx) (doc : TecoDoc) :
    (s.write place doc).held + ofOption ctx.doc =
      s.held + ofOption doc.doc := by
  cases place with
  | qreg name =>
      simp only [read, Option.map_eq_some_iff] at hread
      rcases hread with ⟨qreg, hfind, rfl⟩
      have hqregs := ofOwners_updateQReg hnames hfind doc
      unfold held write
      dsimp only
      calc
        _ = (ofOwners (fun qreg => qreg.string.doc)
              (updateQReg name doc s.qregs) + ofOption qreg.string.doc) +
            (ofOwners TecoDoc.doc s.stack + ofOption s.entry.doc +
              {s.view.doc}) := by abel
        _ = _ := by
          rw [hqregs]
          abel
  | cell block index =>
      simp only [read] at hread
      split at hread
      case isFalse => cases hread
      case isTrue hblock =>
        have hstack := ofOwners_set TecoDoc.doc hread doc
        unfold held write
        dsimp only
        calc
          _ = (ofOwners TecoDoc.doc (s.stack.set index doc) +
                ofOption ctx.doc) +
              (ofOwners (fun qreg => qreg.string.doc) s.qregs +
                ofOption s.entry.doc + {s.view.doc}) := by abel
          _ = _ := by
            rw [hstack]
            abel
  | entry =>
      cases hread
      unfold held write
      dsimp only
      abel

/-- What has been written can be read. -/
theorem read_write_self {place : Place Reg} (h : s.Valid place)
    (doc : TecoDoc) : (s.write place doc).read place = some doc := by
  cases place with
  | qreg name =>
      simp only [Valid, read, Option.isSome_map] at h
      rcases Option.isSome_iff_exists.mp h with ⟨qreg, hqreg⟩
      have hfind := (write_shape (.qreg name) doc s).find hqreg
      rcases hfind with ⟨qreg', hqreg', _⟩
      simp only [read]
      rw [hqreg']
      have hmem : qreg' ∈ updateQReg name doc s.qregs :=
        List.mem_of_find?_eq_some hqreg'
      have hname : qreg'.name = name := by
        simpa using List.find?_some hqreg'
      unfold updateQReg at hmem
      rcases List.mem_map.mp hmem with ⟨qreg'', _, heq⟩
      by_cases hname' : qreg''.name = name
      · rw [if_pos hname'] at heq
        rw [<- heq]
        rfl
      · rw [if_neg hname'] at heq
        rw [<- heq] at hname
        exact absurd hname hname'
  | cell block index =>
      simp only [Valid, read] at h ⊢
      split at h
      case isFalse => cases h
      case isTrue hblock =>
        rw [isSome_getElem?] at h
        have hindex : index < s.stack.length := by simpa using h
        show (if block = s.block then (s.stack.set index doc)[index]?
          else none) = some doc
        rw [if_pos hblock, List.getElem?_set_self hindex]
  | entry => rfl

/-!
## Scintilla
-/

/-- Only the documents and the view are different. -/
structure SameOwners (s t : State Reg) : Prop where
  qregs : t.qregs = s.qregs
  current : t.current = s.current
  stack : t.stack = s.stack
  block : t.block = s.block
  capacity : t.capacity = s.capacity
  entry : t.entry = s.entry
  popping : t.popping = s.popping
  undoEnabled : t.undoEnabled = s.undoEnabled
  undo : t.undo = s.undo
  nextDoc : t.nextDoc = s.nextDoc

omit [DecidableEq Reg] in
theorem SameOwners.refl (s : State Reg) : SameOwners s s :=
  ⟨rfl, rfl, rfl, rfl, rfl, rfl, rfl, rfl, rfl, rfl⟩

omit [DecidableEq Reg] in
theorem SameOwners.trans {u : State Reg} (h : SameOwners s t)
    (h' : SameOwners t u) : SameOwners s u :=
  ⟨h'.qregs.trans h.qregs, h'.current.trans h.current,
    h'.stack.trans h.stack, h'.block.trans h.block,
    h'.capacity.trans h.capacity, h'.entry.trans h.entry,
    h'.popping.trans h.popping, h'.undoEnabled.trans h.undoEnabled,
    h'.undo.trans h.undo, h'.nextDoc.trans h.nextDoc⟩

omit [DecidableEq Reg] in
theorem SameOwners.shape (h : SameOwners s t) : SameShape s t :=
  ⟨by rw [h.qregs], h.current, by rw [h.stack], h.block, h.capacity,
    h.popping, h.undoEnabled⟩

theorem SameOwners.read (h : SameOwners s t) (place : Place Reg) :
    t.read place = s.read place := by
  cases place with
  | qreg name => simp only [State.read, State.find, h.qregs]
  | cell block index => simp only [State.read, h.block, h.stack]
  | entry => simp only [State.read, h.entry]

omit [DecidableEq Reg] in
theorem SameOwners.held (h : SameOwners s t) (hview : t.view.doc = s.view.doc) :
    t.held = s.held := by
  unfold State.held
  rw [h.qregs, h.stack, h.entry, hview]

theorem SameOwners.counted (h : SameOwners s t)
    (hcounted : Counted s tokens)
    (hexact : Exact t.refs (t.held + ofOwners Token.owns tokens))
    (hfresh : forall id, s.nextDoc <= id -> t.refs id = 0) :
    Counted t tokens := by
  constructor
  · exact hexact
  · rw [h.nextDoc]
    exact hfresh
  · rw [h.qregs]
    exact hcounted.names
  · rw [h.current]
    intro name hname
    simp only [State.find, h.qregs]
    exact hcounted.current name hname

omit [DecidableEq Reg] in
theorem refs_setDocument (id : DocId) (document : Document) (s : State Reg) :
    (s.setDocument id document).refs =
      Function.update s.refs id document.refs := by
  funext other
  unfold refs setDocument
  by_cases hother : other = id
  · subst hother
    simp
  · simp [hother]

omit [DecidableEq Reg] in
theorem setDocument_sameOwners (id : DocId) (document : Document)
    (s : State Reg) : SameOwners s (s.setDocument id document) :=
  ⟨rfl, rfl, rfl, rfl, rfl, rfl, rfl, rfl, rfl, rfl⟩

omit [DecidableEq Reg] in
theorem addRefDocument_yields {id : DocId} {held : Multiset DocId}
    (hexact : Exact s.refs held) (hid : 0 < s.refs id)
    (hfresh : forall id, s.nextDoc <= id -> s.refs id = 0) :
    Yields (s.addRefDocument id) (fun t =>
      SameOwners s t ∧ t.view = s.view ∧ Exact t.refs ({id} + held) ∧
        forall id, s.nextDoc <= id -> t.refs id = 0) := by
  have hne : (s.docs id).refs ≠ 0 := Nat.ne_of_gt hid
  unfold addRefDocument
  rw [if_neg hne]
  apply Yields.some
  refine ⟨setDocument_sameOwners _ _ s, rfl, ?_, ?_⟩
  · rw [refs_setDocument]
    exact hexact.acquire id
  · intro other hother
    rw [refs_setDocument]
    have hdiff : other ≠ id := by
      rintro rfl
      rw [hfresh other hother] at hid
      exact Nat.lt_irrefl 0 hid
    rw [Function.update_of_ne hdiff]
    exact hfresh other hother

omit [DecidableEq Reg] in
theorem releaseDocument_yields {id : DocId} {held : Multiset DocId}
    (hexact : Exact s.refs ({id} + held))
    (hfresh : forall id, s.nextDoc <= id -> s.refs id = 0) :
    Yields (s.releaseDocument id) (fun t =>
      SameOwners s t ∧ t.view = s.view ∧ Exact t.refs held ∧
        forall id, s.nextDoc <= id -> t.refs id = 0) := by
  have hpos : 0 < s.refs id :=
    hexact.pos (Multiset.mem_add.mpr (Or.inl (Multiset.mem_singleton_self id)))
  have hne : (s.docs id).refs ≠ 0 := Nat.ne_of_gt hpos
  unfold releaseDocument
  rw [if_neg hne]
  apply Yields.some
  refine ⟨setDocument_sameOwners _ _ s, rfl, ?_, ?_⟩
  · rw [refs_setDocument]
    exact hexact.release
  · intro other hother
    rw [refs_setDocument]
    have hdiff : other ≠ id := by
      rintro rfl
      rw [hfresh other hother] at hpos
      exact Nat.lt_irrefl 0 hpos
    rw [Function.update_of_ne hdiff]
    exact hfresh other hother

omit [DecidableEq Reg] in
theorem docScintillaRef_yields {doc : Option DocId} {held : Multiset DocId}
    (hexact : Exact s.refs held)
    (hdoc : forall id, doc = some id -> 0 < s.refs id)
    (hfresh : forall id, s.nextDoc <= id -> s.refs id = 0) :
    Yields (s.docScintillaRef doc) (fun t =>
      SameOwners s t ∧ t.view = s.view ∧ Exact t.refs (ofOption doc + held) ∧
        forall id, s.nextDoc <= id -> t.refs id = 0) := by
  cases doc with
  | none =>
      apply Yields.some
      refine ⟨SameOwners.refl s, rfl, ?_, hfresh⟩
      simpa using hexact
  | some id => exact addRefDocument_yields hexact (hdoc id rfl) hfresh

omit [DecidableEq Reg] in
theorem docScintillaRelease_yields {doc : Option DocId}
    {held : Multiset DocId} (hexact : Exact s.refs (ofOption doc + held))
    (hfresh : forall id, s.nextDoc <= id -> s.refs id = 0) :
    Yields (s.docScintillaRelease doc) (fun t =>
      SameOwners s t ∧ t.view = s.view ∧ Exact t.refs held ∧
        forall id, s.nextDoc <= id -> t.refs id = 0) := by
  cases doc with
  | none =>
      apply Yields.some
      refine ⟨SameOwners.refl s, rfl, ?_, hfresh⟩
      simpa using hexact
  | some id => exact releaseDocument_yields hexact hfresh

/-- The view hands its reference over to another document. -/
theorem setDocPointer_yields {id : DocId} (h : Counted s tokens)
    (hid : 0 < s.refs id) :
    Yields (s.setDocPointer id) (fun t =>
      SameOwners s t ∧ t.view.doc = id ∧ Counted t tokens) := by
  apply Yields.bind (addRefDocument_yields h.exact hid h.fresh)
  rintro u ⟨howners, hview, hexact, hfresh⟩
  have hview' : u.view.doc = s.view.doc := by rw [hview]
  have hsplit : ({id} + (s.held + ofOwners Token.owns tokens)) =
      {u.view.doc} + ({id} + (ofOwners (fun qreg => qreg.string.doc) s.qregs +
        ofOwners TecoDoc.doc s.stack + ofOption s.entry.doc +
        ofOwners Token.owns tokens)) := by
    rw [hview']
    unfold held
    abel
  rw [hsplit] at hexact
  have hfresh' : forall id, u.nextDoc <= id -> u.refs id = 0 := by
    rw [howners.nextDoc]
    exact hfresh
  apply Yields.bind (releaseDocument_yields hexact hfresh')
  rintro v ⟨howners', _, hexact', hfresh''⟩
  have hv : SameOwners s { v with view := { doc := id, params := .zero } } :=
    (howners.trans howners').trans
      ⟨rfl, rfl, rfl, rfl, rfl, rfl, rfl, rfl, rfl, rfl⟩
  apply Yields.some
  refine ⟨hv, rfl, ?_⟩
  apply hv.counted h
  · have hheld : ({ v with view := { doc := id, params := .zero } } :
        State Reg).held + ofOwners Token.owns tokens =
          {id} + (ofOwners (fun qreg => qreg.string.doc) s.qregs +
            ofOwners TecoDoc.doc s.stack + ofOption s.entry.doc +
            ofOwners Token.owns tokens) := by
      unfold held
      dsimp only
      rw [howners'.qregs, howners'.stack, howners'.entry, howners.qregs,
        howners.stack, howners.entry]
      abel
    rw [hheld]
    exact hexact'
  · intro id' hid'
    apply hfresh''
    rw [howners.nextDoc]
    exact hid'

/-!
## `doc.c`
-/

/-- A step at a place which keeps the counts exact and pushes no token. -/
structure Keeps (place : Place Reg) (tokens : List (Token Reg))
    (s t : State Reg) : Prop where
  counted : Counted t tokens
  shape : SameShape s t
  undo : t.undo = s.undo
  entry : place ≠ .entry -> t.entry = s.entry

variable {place : Place Reg}

theorem Counted.keeps (h : Counted s tokens) : Keeps place tokens s s :=
  ⟨h, SameShape.refl s, rfl, fun _ => rfl⟩

theorem Keeps.trans {u : State Reg} (h : Keeps place tokens s t)
    (h' : Keeps place tokens t u) : Keeps place tokens s u :=
  ⟨h'.counted, h.shape.trans h'.shape, h'.undo.trans h.undo,
    fun hplace => (h'.entry hplace).trans (h.entry hplace)⟩

/-- Steps at a register do not touch the entry. -/
theorem Keeps.at {name : Reg} (h : Keeps (.qreg name) tokens s t) :
    Keeps place tokens s t :=
  ⟨h.counted, h.shape, h.undo, fun _ => h.entry (by simp)⟩

theorem write_undo (place : Place Reg) (doc : TecoDoc) (s : State Reg) :
    (s.write place doc).undo = s.undo := by
  cases place <;> rfl

theorem write_refs (place : Place Reg) (doc : TecoDoc) (s : State Reg) :
    (s.write place doc).refs = s.refs := by
  cases place <;> rfl

theorem write_nextDoc (place : Place Reg) (doc : TecoDoc) (s : State Reg) :
    (s.write place doc).nextDoc = s.nextDoc := by
  cases place <;> rfl

omit [DecidableEq Reg] in
theorem SameShape.names (h : SameShape s t) :
    t.qregs.map QReg.name = s.qregs.map QReg.name := by
  have hnames := congrArg (List.map (fun kind => kind.1)) h.qregs
  rw [List.map_map, List.map_map] at hnames
  exact hnames

/-- Writing something else keeps the counts exact if they are changed
accordingly. -/
theorem SameShape.counted {tokens' : List (Token Reg)} (h : SameShape s t)
    (hcounted : Counted s tokens)
    (hexact : Exact t.refs (t.held + ofOwners Token.owns tokens'))
    (hfresh : forall id, t.nextDoc <= id -> t.refs id = 0) :
    Counted t tokens' := by
  constructor
  · exact hexact
  · exact hfresh
  · rw [h.names]
    exact hcounted.names
  · rw [h.current]
    intro name hname
    have hfound := hcounted.current name hname
    rcases Option.isSome_iff_exists.mp hfound with ⟨qreg, hqreg⟩
    rcases h.find hqreg with ⟨qreg', hqreg', _⟩
    rw [hqreg']
    rfl

theorem write_entry (hplace : place ≠ .entry) (doc : TecoDoc)
    (s : State Reg) : (s.write place doc).entry = s.entry := by
  cases place with
  | qreg name => rfl
  | cell block index => rfl
  | entry => exact absurd rfl hplace

/-- Writing the same document again. -/
theorem held_write_same {ctx doc : TecoDoc}
    (hnames : (s.qregs.map QReg.name).Nodup)
    (hread : s.read place = some ctx) (hdoc : doc.doc = ctx.doc) :
    (s.write place doc).held = s.held := by
  have hheld := held_write hnames hread doc
  rw [hdoc] at hheld
  exact add_right_cancel hheld

theorem write_keeps {ctx : TecoDoc}
    (h : Counted s tokens) (hread : s.read place = some ctx) {doc : TecoDoc}
    (hdoc : doc.doc = ctx.doc) : Keeps place tokens s (s.write place doc) := by
  have hsame := held_write_same h.names hread hdoc
  refine ⟨?_, write_shape place doc s, write_undo place doc s,
    fun hplace => write_entry hplace doc s⟩
  apply (write_shape place doc s).counted h
  · rw [hsame, write_refs]
    exact h.exact
  · rw [write_nextDoc, write_refs]
    exact h.fresh

theorem docUpdate_keeps (h : Counted s tokens)
    (hvalid : s.Valid place) :
    Yields (s.docUpdate place) (fun t => Keeps place tokens s t) := by
  rcases hvalid.read with ⟨ctx, hread⟩
  unfold docUpdate
  rw [hread]
  apply Yields.some
  exact write_keeps h hread rfl

theorem Counted.currentValid (h : Counted s tokens) {name : Reg}
    (hcurrent : s.current = some name) : s.Valid (.qreg name) := by
  simp only [Valid, read, Option.isSome_map]
  exact h.current name hcurrent

theorem updateCurrent_keeps (h : Counted s tokens) :
    Yields s.updateCurrent (fun t => Keeps place tokens s t) := by
  unfold updateCurrent
  cases hcurrent : s.current with
  | none => exact Yields.some h.keeps
  | some name =>
      exact (docUpdate_keeps h (h.currentValid hcurrent)).mono
        (fun _ hkeeps => hkeeps.at)

/-- A document at a place is held. -/
theorem mem_held {ctx : TecoDoc} {id : DocId}
    (hread : s.read place = some ctx) (hid : ctx.doc = some id) :
    id ∈ s.held := by
  unfold held
  rw [Multiset.mem_add, Multiset.mem_add, Multiset.mem_add]
  left
  cases place with
  | qreg name =>
      simp only [read, Option.map_eq_some_iff] at hread
      rcases hread with ⟨qreg, hfind, rfl⟩
      left
      left
      exact mem_ofOwners _ (List.mem_of_find?_eq_some hfind) hid
  | cell block index =>
      simp only [read] at hread
      split at hread
      case isFalse => cases hread
      case isTrue hblock =>
        left
        right
        exact mem_ofOwners _ (List.mem_of_getElem? hread) hid
  | entry =>
      cases hread
      right
      rw [hid]
      exact Multiset.mem_singleton_self id

theorem Counted.refs_pos (h : Counted s tokens)
    {ctx : TecoDoc} {id : DocId} (hread : s.read place = some ctx)
    (hid : ctx.doc = some id) : 0 < s.refs id :=
  h.exact.pos (Multiset.mem_add.mpr (Or.inl (mem_held hread hid)))

/-- A new document belongs to nobody yet. -/
theorem createDocument_counts (h : Counted s tokens) :
    Exact s.createDocument.2.refs
        ({s.nextDoc} + (s.held + ofOwners Token.owns tokens)) ∧
      forall id, s.createDocument.2.nextDoc <= id ->
        s.createDocument.2.refs id = 0 := by
  have hrefs : s.createDocument.2.refs =
      Function.update s.refs s.nextDoc (s.refs s.nextDoc + 1) := by
    funext id
    by_cases hid : id = s.nextDoc
    · subst hid
      simp [createDocument, State.refs]
      exact h.fresh s.nextDoc (Nat.le_refl _)
    · simp [createDocument, State.refs, hid]
  rw [hrefs]
  constructor
  · exact h.exact.acquire s.nextDoc
  · intro id hid
    have hlt : s.nextDoc < id := hid
    rw [Function.update_of_ne (Nat.ne_of_gt hlt)]
    exact h.fresh id (Nat.le_of_lt hlt)

/-- The place owns the document afterwards. -/
theorem docGetScintilla_keeps (h : Counted s tokens)
    (hvalid : s.Valid place) :
    Yields (s.docGetScintilla place) (fun result =>
      Keeps place tokens s result.2 ∧ exists ctx,
        result.2.read place = some ctx ∧ ctx.doc = some result.1) := by
  rcases hvalid.read with ⟨ctx, hread⟩
  unfold docGetScintilla
  rw [hread]
  cases hdoc : ctx.doc with
  | some id =>
      simp only [Option.bind_eq_bind, Option.bind_some, hdoc]
      exact Yields.some ⟨h.keeps, ctx, hread, hdoc⟩
  | none =>
      simp only [Option.bind_eq_bind, Option.bind_some, hdoc]
      apply Yields.some
      rcases createDocument_counts h with ⟨hexact, hfresh⟩
      have hread' : s.createDocument.2.read place = some ctx := hread
      have hnames : (s.createDocument.2.qregs.map QReg.name).Nodup := h.names
      have hcreate : SameShape s s.createDocument.2 :=
        ⟨rfl, rfl, rfl, rfl, rfl, rfl, rfl⟩
      have hshape : SameShape s (s.createDocument.2.write place
          { ctx with doc := some s.nextDoc }) :=
        hcreate.trans (write_shape place _ s.createDocument.2)
      have hheld := held_write hnames hread' { ctx with doc := some s.nextDoc }
      rw [hdoc, ofOption_none, add_zero] at hheld
      have hsame : s.createDocument.2.held = s.held := rfl
      constructor
      · refine ⟨?_, hshape, write_undo place _ s.createDocument.2,
          fun hplace => write_entry hplace _ s.createDocument.2⟩
        apply hshape.counted h
        · show Exact _ ((s.createDocument.2.write place
            { ctx with doc := some s.nextDoc }).held + _)
          rw [write_refs, hheld, hsame, ofOption_some]
          have hcomm : s.held + {s.nextDoc} + ofOwners Token.owns tokens =
              {s.nextDoc} + (s.held + ofOwners Token.owns tokens) := by abel
          rw [hcomm]
          exact hexact
        · intro id hid
          rw [write_refs]
          exact hfresh id (by simpa [write_nextDoc] using hid)
      · exists { ctx with doc := some s.nextDoc }
        constructor
        · apply read_write_self
          unfold Valid
          rw [hread']
          rfl
        · rfl

theorem docEdit_keeps (h : Counted s tokens)
    (hvalid : s.Valid place) :
    Yields (s.docEdit place) (fun t => Keeps place tokens s t) := by
  apply Yields.bind (docGetScintilla_keeps h hvalid)
  rintro ⟨id, u⟩ ⟨hu, ctx, hread, hid⟩
  dsimp only at hu hread hid ⊢
  apply Yields.bind
    (setDocPointer_yields hu.counted (hu.counted.refs_pos hread hid))
  rintro v ⟨howners, _, hv⟩
  rw [howners.read place, hread]
  apply Yields.some
  have howners' : SameOwners v (v.setViewParams ctx.params) :=
    ⟨rfl, rfl, rfl, rfl, rfl, rfl, rfl, rfl, rfl, rfl⟩
  refine ⟨?_, (hu.shape.trans howners.shape).trans howners'.shape,
    howners.undo.trans hu.undo,
    fun hplace => howners.entry.trans (hu.entry hplace)⟩
  exact ⟨hv.exact, hv.fresh, hv.names, hv.current⟩

theorem editCurrent_keeps (h : Counted s tokens) :
    Yields s.editCurrent (fun t => Keeps place tokens s t) := by
  unfold editCurrent
  cases hcurrent : s.current with
  | none => exact Yields.some h.keeps
  | some name =>
      exact (docEdit_keeps h (h.currentValid hcurrent)).mono
        (fun _ hkeeps => hkeeps.at)

omit [DecidableEq Reg] in
theorem appendText_refs (str : Bytes) (s : State Reg) :
    (s.appendText str).refs = s.refs := by
  unfold appendText
  dsimp only
  split
  · rfl
  · rw [refs_setDocument]
    exact Function.update_eq_self s.view.doc s.refs

omit [DecidableEq Reg] in
theorem appendText_owners (str : Bytes) (s : State Reg) :
    SameOwners s (s.appendText str) ∧ (s.appendText str).view = s.view := by
  unfold appendText
  dsimp only
  split
  · exact ⟨SameOwners.refl s, rfl⟩
  · exact ⟨setDocument_sameOwners _ _ s, rfl⟩

theorem appendText_keeps (h : Counted s tokens) (str : Bytes) :
    Keeps place tokens s (s.appendText str) := by
  rcases appendText_owners str s with ⟨howners, hview⟩
  refine ⟨?_, howners.shape, howners.undo, fun _ => howners.entry⟩
  apply howners.counted h
  · rw [appendText_refs, howners.held (by rw [hview])]
    exact h.exact
  · rw [appendText_refs]
    exact h.fresh

theorem SameOwners.held_write (h : SameOwners s t) (hview : t.view = s.view)
    (place : Place Reg) (doc : TecoDoc) :
    (t.write place doc).held = (s.write place doc).held := by
  cases place with
  | qreg name =>
      unfold State.held write
      dsimp only
      rw [h.qregs, h.stack, h.entry, hview]
  | cell block index =>
      unfold State.held write
      dsimp only
      rw [h.qregs, h.stack, h.entry, hview]
  | entry =>
      unfold State.held write
      dsimp only
      rw [h.qregs, h.stack, hview]

/-- A place gives up its document and takes over that of a token. -/
theorem release_write_keeps {tokens' : List (Token Reg)} {ctx doc : TecoDoc}
    (h : Counted s tokens') (hread : s.read place = some ctx)
    (howned : ofOwners Token.owns tokens' =
      ofOption doc.doc + ofOwners Token.owns tokens) :
    Yields (s.docScintillaRelease ctx.doc)
      (fun t => Keeps place tokens s (t.write place doc)) := by
  have hheld := held_write h.names hread doc
  have hexact : Exact s.refs (ofOption ctx.doc +
      ((s.write place doc).held + ofOwners Token.owns tokens)) := by
    rw [<- add_assoc, add_comm (ofOption ctx.doc), hheld, add_assoc, <- howned]
    exact h.exact
  apply (docScintillaRelease_yields hexact h.fresh).mono
  rintro u ⟨howners, hview, hexact', hfresh⟩
  have hshape := howners.shape.trans (write_shape place doc u)
  refine ⟨?_, hshape, (write_undo place doc u).trans howners.undo,
    fun hplace => (write_entry hplace doc u).trans howners.entry⟩
  apply hshape.counted h
  · rw [howners.held_write hview, write_refs]
    exact hexact'
  · rw [write_refs, write_nextDoc, howners.nextDoc]
    exact hfresh

theorem docSetString_keeps (h : Counted s tokens)
    (hvalid : s.Valid place) (str : Bytes) :
    Yields (s.docSetString place str) (fun t => Keeps place tokens s t) := by
  apply Yields.bind (updateCurrent_keeps h)
  intro u (hu : Keeps place tokens s u)
  rcases (hu.shape.valid hvalid).read with ⟨ctx, hread⟩
  rw [hread]
  apply Yields.bind (Yields.some rfl)
  rintro _ rfl
  have howned : ofOwners Token.owns tokens =
      ofOption TecoDoc.init.doc + ofOwners Token.owns tokens :=
    (zero_add _).symm
  apply Yields.bind (release_write_keeps hu.counted hread howned)
  intro v hv
  have hvalid' := (hu.shape.trans hv.shape).valid hvalid
  apply Yields.bind (docEdit_keeps hv.counted hvalid')
  intro w hw
  have happend : Keeps place tokens w (w.appendText str) :=
    appendText_keeps hw.counted str
  apply (editCurrent_keeps happend.counted).mono
  intro x hx
  exact hu.trans (hv.trans (hw.trans (happend.trans hx)))

theorem docGetString_keeps (h : Counted s tokens)
    (hvalid : s.Valid place) :
    Yields (s.docGetString place)
      (fun result => Keeps place tokens s result.2) := by
  rcases hvalid.read with ⟨ctx, hread⟩
  unfold docGetString
  rw [hread]
  cases hdoc : ctx.doc with
  | none =>
      simp only [Option.bind_eq_bind, Option.bind_some, hdoc]
      exact Yields.some h.keeps
  | some id =>
      simp only [Option.bind_eq_bind, Option.bind_some, hdoc]
      apply Yields.bind (updateCurrent_keeps h)
      intro u (hu : Keeps place tokens s u)
      apply Yields.bind (docEdit_keeps hu.counted (hu.shape.valid hvalid))
      intro v hv
      apply Yields.bind (editCurrent_keeps hv.counted)
      intro w (hw : Keeps place tokens v w)
      exact Yields.some (hu.trans (hv.trans hw))

/-!
## Pushing tokens
-/

/-- What is recorded of some tokens. -/
def recorded (s : State Reg) (new : List (Token Reg)) : List (Token Reg) :=
  if s.undoEnabled then new else []

/-- Tokens are pushed onto those of the latest character. -/
def onto : List (Token Reg) -> List (List (Token Reg)) ->
    List (List (Token Reg))
  | [], undo => undo
  | token :: new, [] => [token :: new]
  | token :: new, tokens :: undo => (token :: new ++ tokens) :: undo

omit [DecidableEq Reg] in
theorem onto_onto (later earlier : List (Token Reg))
    (undo : List (List (Token Reg))) :
    onto later (onto earlier undo) = onto (later ++ earlier) undo := by
  cases later with
  | nil => rfl
  | cons token later =>
      cases earlier with
      | nil =>
          rw [List.append_nil]
          rfl
      | cons token' earlier =>
          cases undo with
          | nil => rfl
          | cons tokens undo =>
              simp only [onto, List.cons_append, List.append_assoc]

omit [DecidableEq Reg] in
theorem flatten_onto (new : List (Token Reg))
    (undo : List (List (Token Reg))) :
    (onto new undo).flatten = new ++ undo.flatten := by
  cases new with
  | nil => rfl
  | cons token new =>
      cases undo with
      | nil => rfl
      | cons tokens undo =>
          simp only [onto, List.flatten_cons, List.append_assoc]

/-- A step which keeps the counts exact and pushes some tokens. -/
structure Records (new tokens : List (Token Reg)) (s t : State Reg) :
    Prop where
  counted : Counted t (recorded s new ++ tokens)
  shape : SameShape s t
  undo : t.undo = onto (recorded s new) s.undo
  entry : t.entry = s.entry

omit [DecidableEq Reg] in
theorem recorded_nil (s : State Reg) :
    recorded s ([] : List (Token Reg)) = [] := by
  unfold recorded
  split <;> rfl

theorem Keeps.records (h : Keeps place tokens s t) (hplace : place ≠ .entry) :
    Records [] tokens s t := by
  constructor
  · rw [recorded_nil]
    exact h.counted
  · exact h.shape
  · rw [recorded_nil, h.undo]
    rfl
  · exact h.entry hplace

omit [DecidableEq Reg] in
theorem SameShape.recorded (h : SameShape s t) (new : List (Token Reg)) :
    recorded t new = State.recorded s new := by
  unfold State.recorded
  rw [h.undoEnabled]

omit [DecidableEq Reg] in
theorem recorded_append (s : State Reg) (later earlier : List (Token Reg)) :
    recorded s later ++ recorded s earlier = recorded s (later ++ earlier) := by
  unfold recorded
  split <;> rfl

/-- Later tokens are in front. -/
theorem Records.trans {u : State Reg} {earlier later : List (Token Reg)}
    (h : Records earlier tokens s t)
    (h' : Records later (recorded s earlier ++ tokens) t u) :
    Records (later ++ earlier) tokens s u := by
  constructor
  · have hcounted := h'.counted
    rw [h.shape.recorded, <- List.append_assoc, recorded_append] at hcounted
    exact hcounted
  · exact h.shape.trans h'.shape
  · rw [h'.undo, h.undo, h.shape.recorded, onto_onto, recorded_append]
  · exact h'.entry.trans h.entry

theorem Keeps.trans_records {u : State Reg} {new : List (Token Reg)}
    (h : Keeps place tokens s t) (hplace : place ≠ .entry)
    (h' : Records new tokens t u) : Records new tokens s u := by
  constructor
  · have hcounted := h'.counted
    rw [h.shape.recorded] at hcounted
    exact hcounted
  · exact h.shape.trans h'.shape
  · rw [h'.undo, h.undo, h.shape.recorded]
  · exact h'.entry.trans (h.entry hplace)

theorem Records.trans_keeps {u : State Reg} {new : List (Token Reg)}
    (h : Records new tokens s t)
    (h' : Keeps place (recorded s new ++ tokens) t u)
    (hplace : place ≠ .entry) : Records new tokens s u := by
  constructor
  · exact h'.counted
  · exact h.shape.trans h'.shape
  · rw [h'.undo, h.undo]
  · exact (h'.entry hplace).trans h.entry

omit [DecidableEq Reg] in
theorem push_undo (token : Token Reg) (s : State Reg) :
    (s.push token).undo = onto (recorded s [token]) s.undo := by
  unfold push recorded
  split
  · cases s.undo with
    | nil => rfl
    | cons tokens undo => rfl
  · rfl

omit [DecidableEq Reg] in
theorem push_fields (token : Token Reg) (s : State Reg) :
    SameShape s (s.push token) ∧ (s.push token).held = s.held ∧
      (s.push token).refs = s.refs ∧ (s.push token).nextDoc = s.nextDoc ∧
      (s.push token).entry = s.entry := by
  unfold push
  split
  · split
    · exact ⟨⟨rfl, rfl, rfl, rfl, rfl, rfl, rfl⟩, rfl, rfl, rfl, rfl⟩
    · exact ⟨⟨rfl, rfl, rfl, rfl, rfl, rfl, rfl⟩, rfl, rfl, rfl, rfl⟩
  · exact ⟨SameShape.refl s, rfl, rfl, rfl, rfl⟩

/-- A token which owns no document. -/
theorem push_records (h : Counted s tokens) {token : Token Reg}
    (htoken : token.owns = none) : Records [token] tokens s (s.push token) := by
  rcases push_fields token s with ⟨hshape, hheld, hrefs, hnext, hentry⟩
  have howned : ofOwners Token.owns (recorded s [token] ++ tokens) =
      ofOwners Token.owns tokens := by
    unfold recorded
    split
    · simp [htoken]
    · rfl
  refine ⟨?_, hshape, push_undo token s, hentry⟩
  apply hshape.counted h
  · rw [hheld, hrefs, howned]
    exact h.exact
  · rw [hrefs, hnext]
    exact h.fresh

theorem push_read (token : Token Reg) (place : Place Reg) (s : State Reg) :
    (s.push token).read place = s.read place := by
  unfold push
  split
  · split
    · cases place <;> rfl
    · cases place <;> rfl
  · rfl

/-- The token for a document takes a reference of its own. -/
theorem undoObjectPush_records {ctx : TecoDoc}
    (h : Counted s tokens) (hread : s.read place = some ctx) :
    Yields (s.undoObjectPush place)
      (fun t => Records [.document place ctx.doc] tokens s t ∧
        t.read place = some ctx) := by
  unfold undoObjectPush
  by_cases henabled : s.undoEnabled = true
  · rw [if_pos henabled, hread]
    apply Yields.bind (Yields.some rfl)
    rintro _ rfl
    have hpos : forall id, ctx.doc = some id -> 0 < s.refs id :=
      fun id hid => h.refs_pos hread hid
    apply Yields.bind (docScintillaRef_yields h.exact hpos h.fresh)
    rintro u ⟨howners, hview, hexact, hfresh⟩
    apply Yields.some
    rcases push_fields (.document place ctx.doc) u with
      ⟨hshape, hheld, hrefs, hnext, hentry⟩
    have hrecorded : recorded s [Token.document place ctx.doc] =
        [.document place ctx.doc] := if_pos henabled
    have hundo := push_undo (.document place ctx.doc) u
    rw [howners.shape.recorded, howners.undo] at hundo
    have hread' : (u.push (.document place ctx.doc)).read place =
        some ctx := by
      rw [push_read, howners.read, hread]
    refine ⟨⟨?_, howners.shape.trans hshape, hundo,
      hentry.trans howners.entry⟩, hread'⟩
    apply (howners.shape.trans hshape).counted h
    · rw [hheld, hrefs, howners.held (by rw [hview]), hrecorded,
        ofOwners_append]
      have hcomm : s.held + (ofOwners Token.owns
            [Token.document place ctx.doc] + ofOwners Token.owns tokens) =
          ofOption ctx.doc + (s.held + ofOwners Token.owns tokens) := by
        simp only [ofOwners_cons, ofOwners_nil, Token.owns]
        abel
      rw [hcomm]
      exact hexact
    · rw [hrefs, hnext, howners.nextDoc]
      exact hfresh
  · rw [if_neg henabled]
    apply Yields.some
    have hrecorded : recorded s [Token.document place ctx.doc] = [] :=
      if_neg henabled
    refine ⟨⟨?_, SameShape.refl s, ?_, rfl⟩, hread⟩
    · rw [hrecorded]
      exact h
    · rw [hrecorded]
      rfl

theorem docUndoReset_records {ctx : TecoDoc}
    (h : Counted s tokens) (hread : s.read place = some ctx) :
    Yields (s.docUndoReset place)
      (fun t => Records [.params place ctx.params] tokens s t ∧
        t.read place = some ctx) := by
  unfold docUndoReset
  rw [hread]
  apply Yields.some
  constructor
  · exact push_records h rfl
  · rw [push_read, hread]

/-- The token which edits a document does not own it. -/
theorem docUndoEdit_records (h : Counted s tokens) (hplace : place ≠ .entry)
    (hvalid : s.Valid place) :
    Yields (s.docUndoEdit place) (fun t => exists id params ctx,
      Records [.edit id params] tokens s t ∧ t.read place = some ctx ∧
        ctx.doc = some id) := by
  rcases hvalid.read with ⟨ctx, hread⟩
  unfold docUndoEdit
  rw [hread]
  apply Yields.bind (Yields.some rfl)
  rintro _ rfl
  apply Yields.bind (docGetScintilla_keeps h hvalid)
  rintro ⟨id, u⟩ ⟨hu, ctx', hread', hid⟩
  apply Yields.some
  exists id, ctx.params, ctx'
  have hpush : Records [.edit id ctx.params] tokens u
      (u.push (.edit id ctx.params)) := push_records hu.counted rfl
  constructor
  · exact hu.trans_records hplace hpush
  · constructor
    · rw [push_read]
      exact hread'
    · exact hid

/-- The tokens of `teco_doc_undo_set_string()`, the latest one first.  The
document is edited only behind the token which has restored it. -/
inductive SetTokens (place : Place Reg) : List (Token Reg) -> Prop where
  | plain (value : Option DocId) (params : Params) :
      SetTokens place [.document place value, .params place params]
  | edited (name : Reg) (id : DocId) (params params' : Params) :
      place = .qreg name ->
      SetTokens place [.document place (some id), .params place params,
        .edit id params']

theorem docUndoSetString_records (h : Counted s tokens)
    (hplace : place ≠ .entry) (hvalid : s.Valid place) :
    Yields (s.docUndoSetString place) (fun t => exists new,
      SetTokens place new ∧ Records new tokens s t) := by
  apply Yields.bind (docUpdate_keeps h hvalid)
  intro u hu
  have hvalid' := hu.shape.valid hvalid
  have hedit : Yields
      (if u.currentMustUndo ∧ u.current.map Place.qreg = some place then
        u.docUndoEdit place
      else some u)
      (fun v => exists new ctx, Records new tokens u v ∧
        v.read place = some ctx ∧ (new = [] ∨
          exists name id params, place = .qreg name ∧ ctx.doc = some id ∧
            new = [.edit id params])) := by
    apply Yields.ite
    · rintro ⟨_, hcurrent⟩
      rcases Option.map_eq_some_iff.mp hcurrent with ⟨name, _, hname⟩
      apply (docUndoEdit_records hu.counted hplace hvalid').mono
      rintro v ⟨id, params, ctx, hrecords, hread, hid⟩
      exact ⟨[.edit id params], ctx, hrecords, hread,
        Or.inr ⟨name, id, params, hname.symm, hid, rfl⟩⟩
    · intro _
      rcases hvalid'.read with ⟨ctx, hread⟩
      have hkeeps : Keeps place tokens u u := hu.counted.keeps
      exact Yields.some
        ⟨[], ctx, hkeeps.records hplace, hread, Or.inl rfl⟩
  apply Yields.bind hedit
  rintro v ⟨new, ctx, hv, hread, hnew⟩
  apply Yields.bind (docUndoReset_records hv.counted hread)
  rintro w ⟨hw, hread'⟩
  have hvw := hv.trans hw
  apply (undoObjectPush_records hvw.counted hread').mono
  rintro x ⟨hx, _⟩
  exists [.document place ctx.doc, .params place ctx.params] ++ new
  constructor
  · rcases hnew with rfl | ⟨name, id, params, hplace, hid, rfl⟩
    · exact SetTokens.plain ctx.doc ctx.params
    · rw [hid]
      exact SetTokens.edited name id ctx.params params hplace
  · exact hu.trans_records hplace (hvw.trans hx)

end State

end Documents
end SciTECO
