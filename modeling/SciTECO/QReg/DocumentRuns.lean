import SciTECO.QReg.DocumentUndo

/-!
# Runs of commands on documents

Strings are set, pushed and popped, registers are created and discarded, and
undo tokens are run or discarded in any order.
-/

namespace SciTECO
namespace Documents

open References

variable {Reg : Type} [DecidableEq Reg]

namespace State

variable {s t : State Reg} {tokens : List (Token Reg)} {place : Place Reg}

/-!
## Exchanging documents
-/

theorem docUndoExchange_records (h : Counted s tokens)
    (hvalid : s.Valid place) :
    Yields (s.docUndoExchange place) (fun t => exists params value,
      Records [.params place params, .document place value] tokens s t) := by
  rcases hvalid.read with ⟨ctx, hread⟩
  apply Yields.bind (undoObjectPush_records h hread)
  rintro u ⟨hu, hread'⟩
  apply (docUndoReset_records hu.counted hread').mono
  rintro v ⟨hv, _⟩
  exact ⟨ctx.params, ctx.doc, hu.trans hv⟩

/-- The documents of a register and of a cell change their owners. -/
theorem docExchange_keeps {name : Reg} {block index : Nat}
    (h : Counted s tokens) (hname : s.Valid (.qreg name))
    (hcell : s.Valid (.cell block index)) :
    Yields (s.docExchange (.qreg name) (.cell block index))
      (fun t => Keeps (.qreg name) tokens s t) := by
  rcases hname.read with ⟨ctx, hread⟩
  rcases hcell.read with ⟨ctx', hread'⟩
  unfold docExchange
  rw [hread, hread']
  apply Yields.some
  have hnames : ((s.write (.qreg name) ctx').qregs.map QReg.name).Nodup := by
    rw [(write_shape (.qreg name) ctx' s).names]
    exact h.names
  have hmiddle : (s.write (.qreg name) ctx').read (.cell block index) =
      some ctx' := hread'
  have hfirst := held_write h.names hread ctx'
  have hsecond := held_write hnames hmiddle ctx
  rw [hfirst] at hsecond
  have hheld := add_right_cancel hsecond
  have hshape := (write_shape (.qreg name) ctx' s).trans
    (write_shape (.cell block index) ctx (s.write (.qreg name) ctx'))
  refine ⟨hshape.counted h ?_ h.fresh, hshape, rfl, fun _ => rfl⟩
  rw [hheld]
  exact h.exact

/-- Where the tokens of an exchange refer to. -/
def exchanged (qreg : QReg Reg) (src other : Place Reg) : Prop :=
  other = src ∨ (qreg.mustUndo ∧ other = .qreg qreg.name)

/-- The parameters of the cell are recorded at last. -/
theorem plainExchangeString_records {qreg : QReg Reg} {block index : Nat}
    (h : Counted s tokens) (hname : s.Valid (.qreg qreg.name))
    (hcell : s.Valid (.cell block index)) :
    Yields (s.plainExchangeString qreg (.cell block index))
      (fun result => result.1 = true ∧ exists params new,
        Site.Safe (exchanged qreg (.cell block index))
          (.params (.cell block index) params :: new) ∧
        Records (.params (.cell block index) params :: new) tokens s
          result.2) := by
  have hqreg : Yields
      (if qreg.mustUndo then s.docUndoExchange (.qreg qreg.name) else some s)
      (fun t => exists new,
        Site.Safe (exchanged qreg (.cell block index)) new ∧
          Records new tokens s t) := by
    apply Yields.ite
    · intro hmust
      apply (docUndoExchange_records h hname).mono
      rintro t ⟨params, value, ht⟩
      refine ⟨_, ?_, ht⟩
      exact (Site.Safe.exchanging _ value params).mono
        (fun _ hplace => Or.inr ⟨hmust, hplace⟩)
    · intro _
      have hkeeps : Keeps (.qreg qreg.name) tokens s s := h.keeps
      exact Yields.some ⟨[], Site.Safe.nil, hkeeps.records (by simp)⟩
  apply Yields.bind hqreg
  rintro u ⟨new, hsafe, hu⟩
  have hcell' := hu.shape.valid hcell
  apply Yields.bind (docUndoExchange_records hu.counted hcell')
  rintro v ⟨params, value, hv⟩
  have huv := hu.trans hv
  have hname'' := huv.shape.valid hname
  have hcell'' := huv.shape.valid hcell
  apply Yields.bind (docExchange_keeps huv.counted hname'' hcell'')
  intro w hw
  apply Yields.some
  refine ⟨rfl, params, .document (.cell block index) value :: new, ?_, ?_⟩
  · have hsrc := (Site.Safe.exchanging (.cell block index) value params).mono
      (fun _ hplace => (Or.inl hplace :
        exchanged qreg (.cell block index) _))
    exact hsrc.append hsafe
  · exact huv.trans_keeps hw (by simp)

theorem externalExchangeString_records {qreg : QReg Reg}
    {external : External} {block index : Nat} (h : Counted s tokens)
    (hcell : s.Valid (.cell block index)) :
    Yields (s.externalExchangeString qreg external (.cell block index))
      (fun result => exists new,
        Site.Safe (exchanged qreg (.cell block index)) new ∧
          Records new tokens s result.2) := by
  have hkeeps : Keeps (.cell block index) tokens s s := h.keeps
  unfold externalExchangeString
  apply Yields.ite
  · intro _
    have hundo : Yields
        (if qreg.mustUndo then s.docUndoSetString (.cell block index)
          else some s)
        (fun t => exists new,
          Site.Safe (exchanged qreg (.cell block index)) new ∧
            Records new tokens s t) := by
      apply Yields.ite
      · intro _
        apply (docUndoSetString_records h (by simp) hcell).mono
        rintro t ⟨new, hnew, ht⟩
        exact ⟨new, hnew.safe.mono (fun _ hplace => Or.inl hplace), ht⟩
      · intro _
        exact Yields.some ⟨[], Site.Safe.nil, hkeeps.records (by simp)⟩
    apply Yields.bind hundo
    rintro u ⟨new, hsafe, hu⟩
    apply Yields.bind
      (docGetString_keeps hu.counted (hu.shape.valid hcell))
    rintro ⟨str, v⟩ hv
    have hsv := hu.trans_keeps hv (by simp)
    dsimp only
    cases external.getString with
    | none => exact Yields.some ⟨new, hsafe, hsv⟩
    | some own =>
        apply Yields.ite
        · intro _
          apply Yields.bind (docSetString_keeps hsv.counted
            (hsv.shape.valid hcell) own)
          intro w hw
          exact Yields.some ⟨new, hsafe, hsv.trans_keeps hw (by simp)⟩
        · intro _
          exact Yields.some ⟨new, hsafe, hsv⟩
  · intro _
    exact Yields.some ⟨[], Site.Safe.nil, hkeeps.records (by simp)⟩

theorem exchangeString_records {qreg : QReg Reg} {external : External}
    {block index : Nat} (h : Counted s tokens)
    (hname : s.Valid (.qreg qreg.name))
    (hcell : s.Valid (.cell block index)) :
    Yields (s.exchangeString qreg external (.cell block index))
      (fun result => exists new,
        Site.Safe (exchanged qreg (.cell block index)) new ∧
          Records new tokens s result.2 ∧
            (qreg.external = false -> result.1 = true ∧ exists params rest,
              new = .params (.cell block index) params :: rest)) := by
  unfold exchangeString
  apply Yields.ite
  · intro hexternal
    apply (externalExchangeString_records h hcell).mono
    rintro result ⟨new, hsafe, hresult⟩
    refine ⟨new, hsafe, hresult, ?_⟩
    intro hplain
    rw [hexternal] at hplain
    cases hplain
  · intro _
    apply (plainExchangeString_records h hname hcell).mono
    rintro result ⟨hdone, params, new, hsafe, hresult⟩
    exact ⟨_, hsafe, hresult, fun _ => ⟨hdone, params, new, rfl⟩⟩

/-!
## The invariant
-/

/-- Between two steps. -/
structure Good (s : State Reg) : Prop where
  counted : Counted s s.undo.flatten
  fits : s.site.FitsUndo s.undo
  entry : s.entry.doc = none
  disabled : s.undoEnabled = false -> s.undo = []
  popping : forall pop, pop ∈ s.popping -> (s.find pop.name).isSome

theorem SameShape.isSome_find (h : SameShape s t) {name : Reg}
    (hfind : (s.find name).isSome) : (t.find name).isSome := by
  rcases Option.isSome_iff_exists.mp hfind with ⟨qreg, hqreg⟩
  rcases h.find hqreg with ⟨qreg', hqreg', _⟩
  rw [hqreg']
  rfl

/-- Pushing tokens that can be run. -/
theorem Records.good {new : List (Token Reg)} {places : Place Reg -> Prop}
    (h : Good s) (ht : Records new s.undo.flatten s t)
    (hsafe : Site.Safe places new)
    (hplaces : forall place, places place -> s.site.Reaches place) :
    Good t := by
  have hrecorded : Site.Safe places (recorded s new) := by
    unfold recorded
    split
    · exact hsafe
    · exact Site.Safe.nil
  constructor
  · rw [ht.undo, flatten_onto]
    exact ht.counted
  · rw [ht.undo, ht.shape.site]
    exact hrecorded.fitsUndo hplaces h.fits
  · rw [ht.entry]
    exact h.entry
  · intro hdisabled
    rw [ht.shape.undoEnabled] at hdisabled
    have hnone : recorded s new = [] := by
      unfold recorded
      rw [if_neg (by simp [hdisabled])]
    rw [ht.undo, hnone]
    exact h.disabled hdisabled
  · rw [ht.shape.popping]
    intro pop hpop
    exact ht.shape.isSome_find (h.popping pop hpop)

theorem nextCharacter_good (h : Good s) : Good s.nextCharacter := by
  unfold nextCharacter
  split
  case isTrue henabled =>
    constructor
    · exact ⟨h.counted.exact, h.counted.fresh, h.counted.names,
        h.counted.current⟩
    · exact h.fits
    · exact h.entry
    · intro hdisabled
      rw [henabled] at hdisabled
      cases hdisabled
    · exact h.popping
  case isFalse => exact h

/-- Setting a string. -/
theorem plainSetString_good {name : Reg} (h : Good s)
    (hname : s.Valid (.qreg name)) (str : Bytes) :
    Yields (s.plainSetString name str) Good := by
  have hfound := hname
  simp only [Valid, read, Option.isSome_map] at hfound
  rcases Option.isSome_iff_exists.mp hfound with ⟨qreg, hfind⟩
  have hkeeps : Keeps (.qreg name) s.undo.flatten s s := h.counted.keeps
  unfold plainSetString
  rw [hfind]
  apply Yields.bind (Yields.some rfl)
  rintro _ rfl
  have hundo : Yields
      (if qreg.mustUndo then s.docUndoSetString (.qreg name) else some s)
      (fun t => exists new,
        Site.Safe (fun other => qreg.mustUndo ∧ other = .qreg name) new ∧
          Records new s.undo.flatten s t) := by
    apply Yields.ite
    · intro hmust
      apply (docUndoSetString_records h.counted (by simp) hname).mono
      rintro t ⟨new, hnew, ht⟩
      exact ⟨new, hnew.safe.mono (fun _ hplace => ⟨hmust, hplace⟩), ht⟩
    · intro _
      exact Yields.some ⟨[], Site.Safe.nil, hkeeps.records (by simp)⟩
  apply Yields.bind hundo
  rintro u ⟨new, hsafe, hu⟩
  apply (docSetString_keeps hu.counted (hu.shape.valid hname) str).mono
  intro v hv
  apply Records.good h (hu.trans_keeps hv (by simp)) hsafe
  rintro other ⟨hmust, rfl⟩
  exact mem_site_names hfind hmust

/-!
## The push-down stack
-/

/-- The entry belongs to the stack afterwards. -/
theorem stackAppend_counted {entry : TecoDoc} (h : Counted s tokens)
    (hentry : entry.doc = s.entry.doc) :
    Counted (s.stackAppend entry) tokens := by
  refine ⟨?_, h.fresh, h.names, h.current⟩
  have hexact := h.exact
  unfold held at hexact ⊢
  unfold stackAppend
  dsimp only
  rw [ofOwners_append, ofOwners_cons, ofOwners_nil, add_zero, hentry]
  have hinit : ofOption TecoDoc.init.doc = (0 : Multiset DocId) := rfl
  rw [hinit, add_zero, <- add_assoc]
  exact hexact

/-- What `teco_qreg_stack_push()` does to the stack. -/
structure Pushed (s t : State Reg) : Prop where
  qregs : t.qregs.map (fun qreg => (qreg.name, qreg.mustUndo, qreg.external)) =
    s.qregs.map (fun qreg => (qreg.name, qreg.mustUndo, qreg.external))
  current : t.current = s.current
  length : t.stack.length = s.stack.length + 1
  block : t.block =
    if s.stack.length = s.capacity then s.block + 1 else s.block
  capacity : t.capacity =
    if s.stack.length = s.capacity then 2 * s.capacity else s.capacity
  popping : t.popping = s.popping
  undoEnabled : t.undoEnabled = s.undoEnabled
  undo : t.undo = onto (recorded s [.stackRemoveLast]) s.undo
  counted : Counted t t.undo.flatten
  entry : t.entry.doc = none

theorem stackPush_pushed {name : Reg} (h : Good s)
    (hname : s.Valid (.qreg name)) (own : Option Bytes) :
    Yields (s.stackPush name own) (fun t => Pushed s t ∨ t = s ∧
      exists qreg, s.find name = some qreg ∧ qreg.external = true) := by
  have hfound := hname
  simp only [Valid, read, Option.isSome_map] at hfound
  rcases Option.isSome_iff_exists.mp hfound with ⟨qreg, hfind⟩
  unfold stackPush
  rw [hfind]
  apply Yields.bind (Yields.some rfl)
  rintro _ rfl
  apply Yields.ite
  · rintro ⟨hexternal, _⟩
    exact Yields.some (Or.inr ⟨rfl, qreg, rfl, hexternal⟩)
  · intro _
    have hstring : Yields
        (if qreg.external then some (own.getD [], s)
          else s.docGetString (.qreg name))
        (fun result =>
          Keeps (.qreg name) s.undo.flatten s result.2) := by
      apply Yields.ite
      · intro _
        exact Yields.some h.counted.keeps
      · intro _
        exact docGetString_keeps h.counted hname
    apply Yields.bind hstring
    rintro ⟨str, u⟩ hu
    dsimp only at hu ⊢
    have hnone : u.entry.doc = none := by
      rw [hu.entry (by simp)]
      exact h.entry
    have hinit : TecoDoc.init.doc = u.entry.doc := by
      rw [hnone]
      rfl
    have hreadEntry : u.read .entry = some u.entry := rfl
    have hv := write_keeps hu.counted hreadEntry hinit
    have hvalid : (u.write .entry .init).Valid .entry := rfl
    apply Yields.bind (docSetString_keeps hv.counted hvalid str)
    intro w hw
    have hshape := hu.shape.trans (hv.shape.trans hw.shape)
    rcases (hshape.valid hname).read with ⟨ctx, hread⟩
    rw [hread]
    apply Yields.bind (Yields.some rfl)
    rintro _ rfl
    apply Yields.some
    left
    have happend : Counted
        (w.stackAppend { w.entry with params := ctx.params })
        s.undo.flatten := stackAppend_counted hw.counted rfl
    have hpush := push_records happend
      (show (Token.stackRemoveLast : Token Reg).owns = none from rfl)
    have hundo : w.undo = s.undo := (hw.undo.trans hv.undo).trans hu.undo
    have hrecorded : recorded
        (w.stackAppend { w.entry with params := ctx.params })
        [Token.stackRemoveLast] = recorded s [.stackRemoveLast] :=
      hshape.recorded _
    constructor
    · exact hpush.shape.qregs.trans hshape.qregs
    · exact hpush.shape.current.trans hshape.current
    · rw [hpush.shape.stack]
      show (w.stack ++ [_]).length = _
      rw [List.length_append, hshape.stack]
      rfl
    · rw [hpush.shape.block]
      show (if w.stack.length = w.capacity then w.block + 1 else w.block) = _
      rw [hshape.stack, hshape.capacity, hshape.block]
    · rw [hpush.shape.capacity]
      show (if w.stack.length = w.capacity then 2 * w.capacity
        else w.capacity) = _
      rw [hshape.stack, hshape.capacity]
    · exact hpush.shape.popping.trans hshape.popping
    · exact hpush.shape.undoEnabled.trans hshape.undoEnabled
    · rw [hpush.undo, hrecorded]
      show onto _ w.undo = _
      rw [hundo]
    · have hflatten : (w.stackAppend
          { w.entry with params := ctx.params }).undo = s.undo := hundo
      rw [hpush.undo, flatten_onto, hflatten]
      exact hpush.counted
    · rw [hpush.entry]
      rfl

theorem Pushed.site (h : Pushed s t) :
    t.site = { s.site.push with
      block := if s.stack.length = s.capacity then s.block + 1
        else s.block } := by
  unfold State.site Site.push
  rw [mustUndo_names, mustUndo_names, h.qregs, h.current, h.block, h.length]

/-- A pushed entry can be removed again. -/
theorem fitsUndo_remove {site : Site Reg} {undo : List (List (Token Reg))}
    (h : site.FitsUndo undo) :
    site.push.FitsUndo (onto [.stackRemoveLast] undo) := by
  have hlength : 0 < site.push.length := Nat.succ_pos site.length
  cases undo with
  | nil => exact ⟨hlength, trivial⟩
  | cons tokens undo => exact ⟨hlength, h⟩

/-- The array can be moved, as long as no token refers to it. -/
theorem Pushed.good (h : Good s) (ht : Pushed s t)
    (hmoved : s.stack.length < s.capacity ∨
      forall token, token ∈ s.undo.flatten -> token.ofCell = false) :
    Good t := by
  have hfind : forall name, (s.find name).isSome -> (t.find name).isSome := by
    intro name hname
    rcases Option.isSome_iff_exists.mp hname with ⟨qreg, hqreg⟩
    have hkind := find_map_kind name ht.qregs
    unfold State.find at hqreg ⊢
    rw [hqreg] at hkind
    rw [<- Option.isSome_map, hkind]
    rfl
  constructor
  · exact ht.counted
  · rw [ht.undo, ht.site]
    by_cases henabled : s.undoEnabled = true
    · have hrecorded : recorded s [Token.stackRemoveLast] =
          [.stackRemoveLast] := if_pos henabled
      rw [hrecorded]
      have hmovedSite : ({ s.site with block :=
          if s.stack.length = s.capacity then s.block + 1
            else s.block } : Site Reg).FitsUndo s.undo := by
        rcases hmoved with hroom | hcells
        · rw [if_neg (Nat.ne_of_lt hroom)]
          exact h.fits
        · exact h.fits.moved hcells
      exact fitsUndo_remove hmovedSite
    · have hrecorded : recorded s [Token.stackRemoveLast] = [] :=
        if_neg henabled
      rw [hrecorded, h.disabled (by simpa using henabled)]
      trivial
  · exact ht.entry
  · intro hdisabled
    rw [ht.undoEnabled] at hdisabled
    have hrecorded : recorded s [Token.stackRemoveLast] = [] :=
      if_neg (by simp [hdisabled])
    rw [ht.undo, hrecorded]
    exact h.disabled hdisabled
  · rw [ht.popping]
    intro pop hpop
    exact hfind pop.name (h.popping pop hpop)

theorem stackPopInteger_good {name : Reg} (h : Good s)
    (hname : (s.find name).isSome) (accepted : Bool) :
    Good (s.stackPopInteger name accepted) := by
  unfold stackPopInteger
  split
  case isTrue =>
    refine ⟨⟨h.counted.exact, h.counted.fresh, h.counted.names,
      h.counted.current⟩, h.fits, h.entry, h.disabled, ?_⟩
    intro pop hpop
    cases hpop with
    | head => exact hname
    | tail _ hrest => exact h.popping pop hrest
  case isFalse => exact h

/-- Entries that have been put back can be taken away again. -/
theorem fitsUndo_entry {site : Site Reg} {undo : List (List (Token Reg))}
    (h : site.FitsUndo undo) (hlength : 0 < site.length) (entry : TecoDoc) :
    site.pop.FitsUndo (onto [.stackEntry entry] undo) := by
  have hsame : site.pop.push = site := by
    unfold Site.pop Site.push
    dsimp only
    rw [Nat.sub_add_cancel hlength]
  cases undo with
  | nil => trivial
  | cons tokens undo =>
      show Site.Fits _ site.pop.push none tokens
      rw [hsame]
      exact h

omit [DecidableEq Reg] in
theorem site_dropLast (s : State Reg) :
    ({ s with stack := s.stack.dropLast } : State Reg).site = s.site.pop := by
  unfold site Site.pop
  dsimp only
  rw [List.length_dropLast]

/-- The last entry leaves the stack and belongs to the token, or its document is
given up. -/
theorem pushOwn_good {entry : TecoDoc} (h : Good s)
    (hentry : s.stack.getLast? = some entry) :
    Yields (s.undoStackPushOwn entry)
      (fun t => Good { t with stack := t.stack.dropLast } ∧ SameShape s t ∧
        t.undo = onto (recorded s [.stackEntry entry]) s.undo) := by
  have hne : s.stack ≠ [] := by
    rintro hnil
    rw [hnil] at hentry
    cases hentry
  have hlength : 0 < s.site.length := List.length_pos_of_ne_nil hne
  unfold undoStackPushOwn
  apply Yields.ite
  · intro henabled
    apply Yields.some
    rcases push_fields (.stackEntry entry) s with
      ⟨hshape, hheld, hrefs, hnext, hsame⟩
    have hpushed := push_undo (.stackEntry entry) s
    have hundo := hpushed
    have hrecorded : recorded s [Token.stackEntry entry] =
        [.stackEntry entry] := if_pos henabled
    rw [hrecorded] at hundo
    have hstack : (s.push (.stackEntry entry)).stack = s.stack := by
      unfold push
      rw [if_pos henabled]
      cases s.undo <;> rfl
    have hlast : (s.push (.stackEntry entry)).stack.getLast? = some entry := by
      rw [hstack]
      exact hentry
    refine ⟨?_, hshape, hpushed⟩
    constructor
    · refine ⟨?_, ?_, ?_, ?_⟩
      · show Exact (s.push _).refs
          (_ + ofOwners Token.owns (s.push _).undo.flatten)
        rw [hundo, flatten_onto, ofOwners_append, ofOwners_cons,
          ofOwners_nil, add_zero, hrefs]
        have hdrop := held_dropLast hlast
        rw [hheld] at hdrop
        have hexact := h.counted.exact
        rw [hdrop] at hexact
        rw [<- add_assoc, add_comm _ (ofOption _)]
        exact hexact
      · show forall id, (s.push _).nextDoc <= id -> (s.push _).refs id = 0
        rw [hnext, hrefs]
        exact h.counted.fresh
      · show ((s.push _).qregs.map QReg.name).Nodup
        rw [hshape.names]
        exact h.counted.names
      · show forall name, (s.push _).current = some name ->
          ((s.push _).find name).isSome
        intro name hname
        rw [hshape.current] at hname
        exact hshape.isSome_find (h.counted.current name hname)
    · rw [site_dropLast, hshape.site]
      show s.site.pop.FitsUndo (s.push _).undo
      rw [hundo]
      exact fitsUndo_entry h.fits hlength entry
    · show (s.push _).entry.doc = none
      rw [hsame]
      exact h.entry
    · show (s.push _).undoEnabled = false -> _
      intro hdisabled
      rw [hshape.undoEnabled, henabled] at hdisabled
      cases hdisabled
    · show forall pop, pop ∈ (s.push _).popping ->
        ((s.push _).find pop.name).isSome
      rw [hshape.popping]
      intro pop hpop
      exact hshape.isSome_find (h.popping pop hpop)
  · intro hdisabled
    have hnone : s.undo = [] := h.disabled (by simpa using hdisabled)
    apply (releaseLast_yields h.counted hentry).mono
    rintro t ⟨howners, ht⟩
    have hundo : t.undo = [] := howners.undo.trans hnone
    have hrecorded : recorded s [Token.stackEntry entry] = [] :=
      if_neg hdisabled
    refine ⟨?_, howners.shape, by rw [hrecorded, howners.undo]; rfl⟩
    constructor
    · rw [<- howners.undo] at ht
      exact ht
    · show Site.FitsUndo _ t.undo
      rw [hundo]
      trivial
    · show t.entry.doc = none
      rw [howners.entry]
      exact h.entry
    · exact fun _ => hundo
    · show forall pop, pop ∈ t.popping -> (t.find pop.name).isSome
      simp only [State.find, howners.popping, howners.qregs]
      exact h.popping

/-- What `teco_qreg_stack_pop()` does to the stack. -/
structure Popped (pop : Popping Reg) (s t : State Reg) : Prop where
  qregs : t.qregs.map (fun qreg => (qreg.name, qreg.mustUndo, qreg.external)) =
    s.qregs.map (fun qreg => (qreg.name, qreg.mustUndo, qreg.external))
  length : t.stack.length = s.stack.length - 1
  block : t.block = s.block
  capacity : t.capacity = s.capacity
  popping : t.popping = s.popping.tail
  undoEnabled : t.undoEnabled = s.undoEnabled
  undo : exists entry params new,
    t.undo = onto (recorded s (.stackEntry entry ::
      .params (.cell pop.block pop.index) params :: new)) s.undo

/-- The rest of a pop, if the entry is still the last one. -/
theorem stackPopString_yields {pop : Popping Reg}
    {popping : List (Popping Reg)} {qreg : QReg Reg} (h : Good s)
    (external : External) (hpopping : s.popping = pop :: popping)
    (hfind : s.find pop.name = some qreg) (hblock : pop.block = s.block)
    (hindex : pop.index + 1 = s.stack.length) :
    Yields (s.stackPopString external) (fun t =>
      Good t ∧ (qreg.external = false -> Popped pop s t)) := by
  have hgood : Good { s with popping := popping } := by
    refine ⟨⟨h.counted.exact, h.counted.fresh, h.counted.names,
      h.counted.current⟩, h.fits, h.entry, h.disabled, ?_⟩
    intro pop' hpop'
    apply h.popping pop'
    rw [hpopping]
    exact List.mem_cons_of_mem _ hpop'
  have hfind' : ({ s with popping := popping } : State Reg).find pop.name =
      some qreg := hfind
  have hreaches : ({ s with popping := popping } : State Reg).site.Reaches
      (.cell pop.block pop.index) := by
    constructor
    · exact hblock
    · show pop.index < s.stack.length
      rw [<- hindex]
      exact Nat.lt_succ_self pop.index
  have hname : qreg.name = pop.name := by
    simpa using List.find?_some hfind
  have hmem : qreg.name ∈ s.qregs.map QReg.name :=
    List.mem_map_of_mem (List.mem_of_find?_eq_some hfind)
  unfold stackPopString
  rw [hpopping]
  dsimp only
  rw [hfind']
  apply Yields.bind (Yields.some rfl)
  rintro _ rfl
  apply Yields.bind (exchangeString_records hgood.counted
    (valid_of_mem hmem) (valid_of_reaches hreaches).1)
  rintro ⟨done, t⟩ ⟨new, hsafe, ht, hplain⟩
  dsimp only at ht hplain ⊢
  have htGood : Good t := by
    apply Records.good hgood ht hsafe
    rintro place (rfl | ⟨hmust, rfl⟩)
    · exact hreaches
    · rw [hname]
      exact mem_site_names hfind' hmust
  apply Yields.ite
  · intro _
    have hread : t.read (.cell pop.block pop.index) = t.stack.getLast? := by
      have hblock' : pop.block = t.block := by
        rw [ht.shape.block]
        exact hblock
      have hindex' : pop.index = t.stack.length - 1 := by
        rw [ht.shape.stack]
        show pop.index = s.stack.length - 1
        rw [<- hindex]
        rfl
      simp only [read]
      rw [if_pos hblock', hindex', List.getLast?_eq_getElem?]
    rcases (ht.shape.valid (valid_of_reaches hreaches).1).read with
      ⟨entry, hentry⟩
    rw [hentry]
    apply Yields.bind (Yields.some rfl)
    rintro _ rfl
    rw [hread] at hentry
    apply Yields.bind (pushOwn_good htGood hentry)
    rintro u ⟨hu, hshape, hundo⟩
    apply Yields.some
    refine ⟨hu, ?_⟩
    intro hexternal
    rcases hplain hexternal with ⟨_, params, rest, rfl⟩
    have hall := ht.shape.trans hshape
    constructor
    · exact hall.qregs
    · show u.stack.dropLast.length = _
      rw [List.length_dropLast, hall.stack]
    · exact hall.block
    · exact hall.capacity
    · show u.popping = s.popping.tail
      rw [hall.popping, hpopping]
      rfl
    · exact hall.undoEnabled
    · refine ⟨entry, params, rest, ?_⟩
      show u.undo = _
      rw [hundo, ht.undo, ht.shape.recorded, onto_onto, recorded_append]
      rfl
  · intro hfailed
    apply Yields.some
    refine ⟨htGood, ?_⟩
    intro hexternal
    exact absurd (hplain hexternal).1 hfailed

/-!
## Tables of registers
-/

/-- A new register has no document yet. -/
def inserted (name : Reg) (mustUndo : Bool) (s : State Reg) : State Reg :=
  { s with
    qregs := { name := name, string := .init, mustUndo := mustUndo
               external := false } :: s.qregs }

theorem find_inserted {name other : Reg} (hfind : s.find name = none)
    (mustUndo : Bool) (hother : (s.find other).isSome) :
    ((s.inserted name mustUndo).find other).isSome := by
  have hne : name ≠ other := by
    rintro rfl
    rw [hfind] at hother
    cases hother
  unfold State.find inserted
  dsimp only
  rw [List.find?_cons_of_neg]
  · exact hother
  · simpa using hne

theorem notMem_of_find {name : Reg} (hfind : s.find name = none) :
    name ∉ s.qregs.map QReg.name := by
  intro hmem
  have hvalid := valid_of_mem hmem
  simp only [Valid, read, hfind] at hvalid
  cases hvalid

theorem inserted_counted {name : Reg} (h : Counted s tokens)
    (hfind : s.find name = none) (mustUndo : Bool) :
    Counted (s.inserted name mustUndo) tokens := by
  constructor
  · have hexact := h.exact
    unfold held at hexact ⊢
    unfold inserted
    dsimp only
    rw [ofOwners_cons]
    have hinit : ofOption TecoDoc.init.doc = (0 : Multiset DocId) := rfl
    rw [hinit, zero_add]
    exact hexact
  · exact h.fresh
  · show (name :: s.qregs.map QReg.name).Nodup
    rw [List.nodup_cons]
    exact ⟨notMem_of_find hfind, h.names⟩
  · intro other hother
    exact find_inserted hfind mustUndo (h.current other hother)

omit [DecidableEq Reg] in
theorem mem_inserted_names {name other : Reg} {mustUndo : Bool}
    (h : other ∈ s.site.names) :
    other ∈ (s.inserted name mustUndo).site.names := by
  unfold site inserted
  dsimp only
  rw [List.filter_cons]
  split
  · exact List.mem_cons_of_mem _ h
  · exact h

theorem inserted_good {name : Reg} (h : Good s)
    (hfind : s.find name = none) (mustUndo : Bool) :
    Good (s.inserted name mustUndo) := by
  constructor
  · exact inserted_counted h.counted hfind mustUndo
  · apply h.fits.mono
    exact ⟨fun _ hother => mem_inserted_names hother, rfl, rfl, rfl⟩
  · exact h.entry
  · exact h.disabled
  · intro pop hpop
    exact find_inserted hfind mustUndo (h.popping pop hpop)

/-- The token which removes the new register. -/
theorem tableRemove_fits {name : Reg} {mustUndo : Bool} (h : Good s)
    (hfind : s.find name = none) (hmust : mustUndo = true) :
    (s.inserted name mustUndo).site.FitsUndo
      (onto [.tableRemove name] s.undo) := by
  have hmem : name ∈ (s.inserted name mustUndo).site.names := by
    unfold site inserted
    dsimp only
    rw [List.filter_cons, if_pos hmust, List.map_cons]
    exact List.mem_cons_self
  have hcurrent : s.current ≠ some name := by
    intro hcurrent
    have hfound := h.counted.current name hcurrent
    rw [hfind] at hfound
    cases hfound
  have hwithin : Site.Within s.site
      ((s.inserted name mustUndo).site.remove name) := by
    constructor
    case names =>
      intro other hother
      simp only [Site.remove, List.mem_filter, decide_eq_true_eq]
      refine ⟨mem_inserted_names hother, ?_⟩
      rintro rfl
      exact notMem_of_find hfind (site_names_sub hother)
    all_goals rfl
  have hfits := h.fits.mono hwithin
  cases hundo : s.undo with
  | nil => exact ⟨⟨hmem, hcurrent⟩, trivial⟩
  | cons tokens undo =>
      rw [hundo] at hfits
      exact ⟨⟨hmem, hcurrent⟩, hfits⟩

theorem tableInsert_good (h : Good s) (name : Reg) (mustUndo : Bool) :
    Yields (s.tableInsert name mustUndo) Good := by
  unfold tableInsert
  cases hfind : s.find name with
  | some qreg => exact Yields.some h
  | none =>
      have hgood := inserted_good h hfind mustUndo
      show Yields (if mustUndo then
          some ((s.inserted name mustUndo).push (.tableRemove name))
        else some (s.inserted name mustUndo)) Good
      apply Yields.ite
      · intro hmust
        apply Yields.some
        have hrecords := push_records hgood.counted
          (show (Token.tableRemove name).owns = none from rfl)
        by_cases henabled : s.undoEnabled = true
        · have hundo : ((s.inserted name mustUndo).push
              (.tableRemove name)).undo = onto [.tableRemove name] s.undo := by
            rw [hrecords.undo]
            unfold recorded
            rw [if_pos (show (s.inserted name mustUndo).undoEnabled = true
              from henabled)]
            rfl
          constructor
          · rw [hrecords.undo, flatten_onto]
            exact hrecords.counted
          · rw [hundo, hrecords.shape.site]
            exact tableRemove_fits h hfind hmust
          · rw [hrecords.entry]
            exact h.entry
          · intro hdisabled
            rw [hrecords.shape.undoEnabled] at hdisabled
            exact absurd (hdisabled.symm.trans henabled) (by decide)
          · rw [hrecords.shape.popping]
            intro pop hpop
            exact hrecords.shape.isSome_find (hgood.popping pop hpop)
        · have hsame : (s.inserted name mustUndo).push (.tableRemove name) =
              s.inserted name mustUndo := by
            unfold push
            exact if_neg henabled
          rw [hsame]
          exact hgood
      · intro _
        exact Yields.some hgood

theorem tableEmpty_good {name : Reg} (h : Good s)
    (hname : s.Valid (.qreg name))
    (hpopping : forall pop, pop ∈ s.popping -> pop.name ≠ name) :
    Yields (s.tableEmpty name) Good := by
  have hfound := hname
  simp only [Valid, read, Option.isSome_map] at hfound
  rcases Option.isSome_iff_exists.mp hfound with ⟨qreg, hfind⟩
  unfold tableEmpty
  rw [hfind]
  apply Yields.bind (Yields.some rfl)
  rintro _ rfl
  apply Yields.ite
  · intro _
    exact Yields.some h
  · intro hkeep
    rw [not_or] at hkeep
    rcases hkeep with ⟨hmust, hcurrent⟩
    apply (tableRemove_yields h.counted hname hcurrent).mono
    rintro t ⟨ht, hwithin, hothers, hbeside⟩
    -- No token refers to a register whose changes are not undone.
    have hnotMem : name ∉ s.site.names := by
      intro hmem
      rcases List.mem_map.mp hmem with ⟨qreg', hqreg', heq⟩
      rw [List.mem_filter] at hqreg'
      have hqreg : qreg ∈ s.qregs := List.mem_of_find?_eq_some hfind
      have hqregName : qreg.name = name := by simpa using List.find?_some hfind
      have hsame : qreg' = qreg :=
        List.inj_on_of_nodup_map h.counted.names hqreg'.1 hqreg
          (heq.trans hqregName.symm)
      rw [hsame] at hqreg'
      exact hmust hqreg'.2
    have hremove : Site.Within s.site (s.site.remove name) := by
      constructor
      · intro other hother
        simp only [Site.remove, List.mem_filter, decide_eq_true_eq]
        refine ⟨hother, ?_⟩
        rintro rfl
        exact hnotMem hother
      all_goals rfl
    constructor
    · rw [hbeside.undo]
      exact ht
    · rw [hbeside.undo]
      exact (h.fits.mono hremove).mono hwithin
    · rw [hbeside.entry]
      exact h.entry
    · rw [hbeside.undoEnabled, hbeside.undo]
      exact h.disabled
    · rw [hbeside.popping]
      intro pop hpop
      exact hothers pop.name (hpopping pop hpop) (h.popping pop hpop)

/-!
## Undo
-/

theorem undoPop_good (h : Good s) (hpopping : s.popping = []) :
    Yields s.undoPop Good := by
  unfold undoPop
  cases hundo : s.undo with
  | nil => exact Yields.some h
  | cons tokens undo =>
      have hcounted := h.counted
      have hfits := h.fits
      rw [hundo] at hcounted hfits
      have hrunnable : Runnable (fun site => site.FitsUndo undo) none tokens
          undo.flatten { s with undo := undo } := by
        refine ⟨⟨hcounted.exact, hcounted.fresh, hcounted.names,
          hcounted.current⟩, hfits, ?_⟩
        intro id hid
        cases hid
      apply (runTokens_runnable hrunnable).mono
      rintro t ⟨ht, hfits', hbeside⟩
      constructor
      · rw [hbeside.undo]
        exact ht
      · rw [hbeside.undo]
        exact hfits'
      · rw [hbeside.entry]
        exact h.entry
      · rw [hbeside.undoEnabled]
        intro hdisabled
        have hnone : s.undo = [] := h.disabled hdisabled
        rw [hundo] at hnone
        cases hnone
      · rw [hbeside.popping]
        intro pop hpop
        have hpop' : pop ∈ s.popping := hpop
        rw [hpopping] at hpop'
        cases hpop'

theorem undoClear_good (h : Good s) : Yields s.undoClear Good := by
  unfold undoClear
  have hcounted : Counted { s with undo := [] } (s.undo.flatten ++ []) := by
    rw [List.append_nil]
    exact ⟨h.counted.exact, h.counted.fresh, h.counted.names,
      h.counted.current⟩
  apply (discardTokens_counted hcounted).mono
  rintro t ⟨ht, howners⟩
  have hundo : t.undo = [] := howners.undo
  constructor
  · rw [hundo]
    exact ht
  · rw [hundo]
    trivial
  · rw [howners.entry]
    exact h.entry
  · exact fun _ => hundo
  · show forall pop, pop ∈ t.popping -> (t.find pop.name).isSome
    simp only [State.find, howners.popping, howners.qregs]
    exact h.popping

end State

end Documents
end SciTECO
