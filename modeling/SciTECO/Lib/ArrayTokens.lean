import Mathlib.Data.List.Forall2
import SciTECO.Lib.Quiet

/-!
# Undo tokens of an array

The tokens that restore an array carry indices, which are counted from the
bottom.  Here an array is a list with its top at the head.  A log is described
by what each of its tokens does to the array.
-/

namespace Undoable

variable {ε φ σ τ κ α : Type}

/-- What a token does to an array. -/
inductive ArrayToken (κ : Type) where
  | keep
  | insertVal (index : Nat) (x : κ)
  | removeIndex (index : Nat)
  | update (index : Nat) (g : κ -> κ)

namespace ArrayToken

/-- `g_array_remove_index()` does nothing for an index outside of the array. -/
def apply : ArrayToken κ -> List κ -> List κ
  | keep, l => l
  | insertVal index x, l => l.insertIdx (l.length - index) x
  | removeIndex index, l =>
      if index < l.length then l.eraseIdx (l.length - 1 - index) else l
  | update index g, l => l.modify (l.length - 1 - index) g

/-- Whether the index can be found in the array. -/
def InRange : ArrayToken κ -> List κ -> Prop
  | keep, _ => True
  | insertVal index _, l => index <= l.length
  | removeIndex index, l => index < l.length
  | update index _, l => index < l.length

theorem apply_removeTop (x : κ) (l : List κ) :
    (removeIndex l.length).apply (x :: l) = l := by
  simp [apply]

theorem apply_insertTop (x : κ) (l : List κ) :
    (insertVal l.length x).apply l = x :: l := by
  simp [apply]

theorem apply_updateTop (g : κ -> κ) (x : κ) (l : List κ) :
    (update l.length g).apply (x :: l) = g x :: l := by
  simp [apply]

end ArrayToken

/-- Apply tokens in list order. -/
def takeBack (ks : List (ArrayToken κ)) (l : List κ) : List κ :=
  ks.foldl (fun l k => k.apply l) l

/-- Every token finds its index in the array that it is applied to. -/
def AllInRange : List (ArrayToken κ) -> List κ -> Prop
  | [], _ => True
  | k :: ks, l => k.InRange l ∧ AllInRange ks (k.apply l)

theorem takeBack_append (later earlier : List (ArrayToken κ))
    (l : List κ) :
    takeBack (later ++ earlier) l = takeBack earlier (takeBack later l) := by
  unfold takeBack
  rw [List.foldl_append]

theorem allInRange_append {later earlier : List (ArrayToken κ)}
    {l : List κ} (hlater : AllInRange later l)
    (hearlier : AllInRange earlier (takeBack later l)) :
    AllInRange (later ++ earlier) l := by
  induction later generalizing l with
  | nil => exact hearlier
  | cons k later ih => exact ⟨hlater.1, ih hlater.2 hearlier⟩

/-!
## The log of an array
-/

variable {f : σ -> List κ}

/-- The tokens act on the array as described. -/
def Logs (f : σ -> List κ) (tokens : List (σ -> σ))
    (ks : List (ArrayToken κ)) : Prop :=
  List.Forall₂ (fun token k => forall s, f (token s) = k.apply (f s))
    tokens ks

theorem Logs.append {later earlier : List (σ -> σ)}
    {ks ks' : List (ArrayToken κ)} (h : Logs f later ks)
    (h' : Logs f earlier ks') : Logs f (later ++ earlier) (ks ++ ks') := by
  unfold Logs at h h' ⊢
  exact List.rel_append h h'

theorem Logs.single {token : σ -> σ} {k : ArrayToken κ}
    (h : forall s, f (token s) = k.apply (f s)) :
    Logs f [token] [k] :=
  List.Forall₂.cons h List.Forall₂.nil

theorem Logs.unwind {tokens : List (σ -> σ)} {ks : List (ArrayToken κ)}
    (h : Logs f tokens ks) (s : σ) :
    f (Undoable.unwind tokens s) = takeBack ks (f s) := by
  induction h generalizing s with
  | nil => rfl
  | cons htoken _ ih =>
      rw [unwind_cons, ih, htoken]
      rfl

/-- Tokens of a part of the state. -/
theorem Logs.onPart {l : Lens σ τ} {g : τ -> List κ}
    {tokens : List (τ -> τ)} {ks : List (ArrayToken κ)}
    (h : Logs g tokens ks) (hset : forall t s, f (l.set t s) = g t)
    (hget : forall s, g (l.get s) = f s) :
    Logs f (tokens.map l.onPart) ks := by
  induction h with
  | nil => exact List.Forall₂.nil
  | cons htoken _ ih =>
      apply List.Forall₂.cons
      · intro s
        show f (l.set _ s) = _
        rw [hset, htoken, hget]
      · exact ih

/-- Tokens that leave the array alone. -/
theorem Logs.untouched {s t : σ} {tokens : List (σ -> σ)}
    (h : Untouched f s t tokens) :
    Logs f tokens (List.replicate tokens.length ArrayToken.keep) := by
  have htokens := h.tokens
  clear h
  induction tokens with
  | nil => exact List.Forall₂.nil
  | cons token tokens ih =>
      apply List.Forall₂.cons
      · exact htokens token List.mem_cons_self
      · apply ih
        intro later hmem
        exact htokens later (List.mem_cons_of_mem _ hmem)

theorem allInRange_keep (count : Nat) (l : List κ) :
    AllInRange (List.replicate count ArrayToken.keep) l := by
  induction count with
  | zero => trivial
  | succ count ih => exact ⟨trivial, ih⟩

theorem takeBack_keep (count : Nat) (l : List κ) :
    takeBack (List.replicate count ArrayToken.keep) l = l := by
  induction count with
  | zero => rfl
  | succ count ih => exact ih

/-!
## Taking back what was done to the top
-/

/-- An array on top of `rest` which is as long as `l'` is.  If `exact` holds it
has the same elements there. -/
def Alike (exact : Prop) (rest l l' : List κ) : Prop :=
  exists top, l = top ++ rest ∧ top.length + rest.length = l'.length ∧
    (exact -> top = l'.take (l'.length - rest.length))

/-- The tokens lead back from any array that is like the one reached to an
array that is like the first one.  The `depth` elements at the bottom are not
touched, whatever they are. -/
def Reverted (f : σ -> List κ) (exact : Prop) (depth : Nat) (s t : σ)
    (tokens : List (σ -> σ)) : Prop :=
  exists ks, Logs f tokens ks ∧
    forall rest l, rest.length = depth -> Alike exact rest l (f t) ->
      AllInRange ks l ∧ Alike exact rest (takeBack ks l) (f s)

variable {exact : Prop} {rest : List κ} {depth : Nat}

theorem Reverted.refl (s : σ) : Reverted f exact depth s s [] := by
  exists []
  constructor
  · exact List.Forall₂.nil
  · intro rest l _ hl
    exact ⟨trivial, hl⟩

theorem Reverted.trans {s t u : σ} {earlier later : List (σ -> σ)}
    (h : Reverted f exact depth s t earlier)
    (h' : Reverted f exact depth t u later) :
    Reverted f exact depth s u (later ++ earlier) := by
  rcases h with ⟨ks, hlogs, hback⟩
  rcases h' with ⟨ks', hlogs', hback'⟩
  exists ks' ++ ks
  constructor
  · exact hlogs'.append hlogs
  · intro rest l hrest hl
    have hlater := hback' rest l hrest hl
    have hearlier := hback rest _ hrest hlater.2
    constructor
    · exact allInRange_append hlater.1 hearlier.1
    · rw [takeBack_append]
      exact hearlier.2

theorem Reverted.of_untouched {s t : σ} {tokens : List (σ -> σ)}
    (h : Untouched f s t tokens) : Reverted f exact depth s t tokens := by
  exists List.replicate tokens.length ArrayToken.keep
  constructor
  · exact Logs.untouched h
  · intro rest l _ hl
    constructor
    · exact allInRange_keep _ l
    · rw [takeBack_keep, <- h.state]
      exact hl

/-- An array that is like another one with the top `x`. -/
theorem Alike.cons {x : κ} {l l' : List κ} (h : Alike exact rest l (x :: l'))
    (hrest : rest.length <= l'.length) :
    exists y l'', l = y :: l'' ∧ (exact -> y = x) ∧
      Alike exact rest l'' l' ∧ l''.length = l'.length := by
  rcases h with ⟨top, heq, hlen, hexact⟩
  have hsub : (x :: l').length - rest.length =
      l'.length - rest.length + 1 := by
    simp only [List.length_cons]
    omega
  cases top with
  | nil =>
      simp only [List.length_nil, List.length_cons] at hlen
      omega
  | cons y top =>
      have htop : top.length + rest.length = l'.length := by
        simp only [List.length_cons] at hlen
        omega
      exists y, top ++ rest
      refine ⟨heq, ?_, ?_, ?_⟩
      · intro h
        have hsame := hexact h
        rw [hsub, List.take_succ_cons] at hsame
        exact (List.cons.inj hsame).1
      · refine ⟨top, rfl, htop, ?_⟩
        intro h
        have hsame := hexact h
        rw [hsub, List.take_succ_cons] at hsame
        exact (List.cons.inj hsame).2
      · rw [List.length_append, htop]

theorem Alike.push {x y : κ} {l l' : List κ} (h : Alike exact rest l l')
    (hxy : exact -> y = x) : Alike exact rest (y :: l) (x :: l') := by
  rcases h with ⟨top, heq, hlen, hexact⟩
  have hsub : (x :: l').length - rest.length =
      l'.length - rest.length + 1 := by
    simp only [List.length_cons]
    omega
  refine ⟨y :: top, ?_, ?_, ?_⟩
  · rw [heq, List.cons_append]
  · simp only [List.length_cons]
    omega
  · intro h
    rw [hsub, List.take_succ_cons, hexact h, hxy h]

theorem Alike.length {l l' : List κ} (h : Alike exact rest l l') :
    l.length = l'.length := by
  rcases h with ⟨top, heq, hlen, _⟩
  rw [heq, List.length_append, hlen]

/-- An element is popped, and its token comes after those of a computation
that leaves the array alone. -/
theorem Reverted.of_popped {s t : σ} {x : κ} {token : σ -> σ}
    {tokens : List (σ -> σ)} (hs : f s = x :: f t)
    (htoken : forall u, f (token u) =
      (ArrayToken.insertVal (f t).length x).apply (f u))
    (htokens : forall token, token ∈ tokens ->
      forall u, f (token u) = f u) :
    Reverted f exact depth s t (token :: tokens) := by
  exists .insertVal (f t).length x ::
    List.replicate tokens.length ArrayToken.keep
  constructor
  · exact List.Forall₂.cons htoken
      (Logs.untouched (s := t) (t := t) ⟨rfl, htokens⟩)
  · intro rest l _ hl
    constructor
    · exact ⟨Nat.le_of_eq hl.length.symm, allInRange_keep _ _⟩
    · show Alike exact rest (takeBack _ ((ArrayToken.insertVal
        (f t).length x).apply l)) (f s)
      rw [takeBack_keep, <- hl.length, ArrayToken.apply_insertTop, hs]
      exact hl.push (fun _ => rfl)

/-- A computation that leaves elements on top of the array, and tokens that
take off just these. -/
theorem Reverted.of_nested {s t : σ} {tokens : List (σ -> σ)}
    (h : Reverted f False (f s).length s t tokens)
    (ht : List.IsSuffix (f s) (f t)) (hdepth : depth <= (f s).length) :
    Reverted f exact depth s t tokens := by
  rcases h with ⟨ks, hlogs, hback⟩
  rcases ht with ⟨added, ht⟩
  have hlen : (f t).length = added.length + (f s).length := by
    rw [<- ht, List.length_append]
  exists ks
  constructor
  · exact hlogs
  · intro rest l hrest hl
    rcases hl with ⟨top, hl, htop, hexact⟩
    have hadded : added.length <= top.length := by omega
    have hbelow : (top.drop added.length ++ rest).length = (f s).length := by
      rw [List.length_append, List.length_drop]
      omega
    have hsplit : Alike False (top.drop added.length ++ rest) l (f t) := by
      refine ⟨top.take added.length, ?_, ?_, fun h => h.elim⟩
      · rw [<- List.append_assoc, List.take_append_drop, hl]
      · rw [List.length_take, hbelow, hlen]
        omega
    rcases hback _ l hbelow hsplit with ⟨hrange, below, heq, hcount, _⟩
    have hnil : below = [] := by
      apply List.eq_nil_of_length_eq_zero
      omega
    constructor
    · exact hrange
    · refine ⟨top.drop added.length, ?_, ?_, ?_⟩
      · rw [heq, hnil, List.nil_append]
      · rw [List.length_append] at hbelow
        exact hbelow
      · intro h
        rw [hexact h, <- ht, List.drop_take, List.drop_left]
        congr 1
        rw [List.length_append]
        omega

/-- Elements may be left on top of the array.  In the strict sense the tokens
take these off, whatever they are. -/
def Balanced (f : σ -> List κ) (strict : Prop) (s t : σ)
    (tokens : List (σ -> σ)) : Prop :=
  List.IsSuffix (f s) (f t) ∧
    (strict -> Reverted f False (f s).length s t tokens)

theorem balanced_composes {strict : Prop} :
    Composes (Balanced f strict) := by
  constructor
  · intro s
    constructor
    · exact List.suffix_refl _
    · intro _
      exact Reverted.refl s
  · intro s t u earlier later h h'
    constructor
    · exact h.1.trans h'.1
    · intro hstrict
      exact (h.2 hstrict).trans
        ((h'.2 hstrict).of_nested h'.1 h.1.length_le)

theorem Balanced.of_untouched {strict : Prop} {s t : σ}
    {tokens : List (σ -> σ)} (h : Untouched f s t tokens) :
    Balanced f strict s t tokens := by
  constructor
  · exact ⟨[], h.state.symm⟩
  · intro _
    exact Reverted.of_untouched h

end Undoable
