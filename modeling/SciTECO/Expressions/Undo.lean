import Mathlib.Data.List.InsertIdx
import SciTECO.Expressions.Rules
import SciTECO.Lib.Restore

/-!
# Taking back expressions

Every call into `expressions.c` registers the tokens which restore the stacks,
the sign and the brace level, whether it succeeds or not.
-/

namespace SciTECO
namespace Expressions

open Undoable

/-- States which agree, up to the brace level unless that is asked for. -/
structure Same (level : Bool) (s t : Expressions) : Prop where
  numbers : s.numbers = t.numbers
  operators : s.operators = t.operators
  numSign : s.numSign = t.numSign
  braceLevel : level = true -> s.braceLevel = t.braceLevel

theorem same_true : Same true = (Eq : Expressions -> Expressions -> Prop) := by
  funext s t
  apply propext
  constructor
  · intro h
    rcases s with ⟨numbers, operators, numSign, braceLevel⟩
    rcases t with ⟨numbers', operators', numSign', braceLevel'⟩
    have hnumbers : numbers = numbers' := h.numbers
    have hoperators : operators = operators' := h.operators
    have hsign : numSign = numSign' := h.numSign
    have hlevel : braceLevel = braceLevel' := h.braceLevel rfl
    rw [hnumbers, hoperators, hsign, hlevel]
  · intro h
    subst h
    exact ⟨rfl, rfl, rfl, fun _ => rfl⟩

theorem Same.weaken {level : Bool} {s t : Expressions} (h : Same level s t) :
    Same false s t :=
  ⟨h.numbers, h.operators, h.numSign, fun hfalse => by cases hfalse⟩

variable {level : Bool}

/-!
## Pushing and popping
-/

theorem eraseIdx_top {α : Type} (a : α) (l : List α) :
    (a :: l).eraseIdx ((a :: l).length - 1 - ((a :: l).length - 1)) = l := by
  rw [Nat.sub_self]
  rfl

/-- An entry is inserted where it has been removed. -/
theorem insertIdx_eraseIdx {α : Type} {l : List α} {index : Nat} {a : α}
    (h : l[index]? = some a) :
    (l.eraseIdx index).insertIdx
      ((l.eraseIdx index).length - (l.length - 1 - index)) a = l := by
  rcases List.getElem?_eq_some_iff.mp h with ⟨hlt, hget⟩
  have hindex : (l.eraseIdx index).length - (l.length - 1 - index) =
      index := by
    rw [List.length_eraseIdx_of_lt hlt]
    omega
  rw [hindex, <- hget]
  exact List.insertIdx_eraseIdx_getElem hlt

theorem restores_pushOp (op : Operator) :
    Restores (Same level) (pushOp op) := by
  intro s
  have hrun : pushOp op s = .ok () { s with operators := op :: s.operators }
      [removeOp ((op :: s.operators).length - 1)] := rfl
  apply RestoresAt.of_ok (r := Same level) hrun
  intro u hu
  refine ⟨hu.numbers, ?_, hu.numSign, hu.braceLevel⟩
  show u.operators.eraseIdx (u.operators.length - 1 - _) = _
  rw [hu.operators]
  exact eraseIdx_top op s.operators

theorem restores_popOp (index : Nat) :
    Restores (Same level) (popOp index) := by
  apply Restores.read
  intro s
  split
  case isTrue =>
      cases hpeek : s.peekOp index with
      | none => trivial
      | some op =>
          have hrun : (do
              emit (insertOp (s.operators.length - 1 - index) op)
              modify (fun t =>
                { t with operators := t.operators.eraseIdx index })
              Pure.pure (some op) : Exec Expressions (Option Operator)) s =
              .ok (some op)
                { s with operators := s.operators.eraseIdx index }
                [insertOp (s.operators.length - 1 - index) op] := rfl
          apply RestoresAt.of_ok (r := Same level) hrun
          intro u hu
          refine ⟨hu.numbers, ?_, hu.numSign, hu.braceLevel⟩
          show u.operators.insertIdx (u.operators.length - _) op = _
          rw [hu.operators]
          exact insertIdx_eraseIdx hpeek
  case isFalse => exact Restores.pure _ s

theorem restores_popNewLoop (fuel : Nat) :
    Restores (Same level) (popNewLoop fuel) := by
  induction fuel with
  | zero => exact Restores.fault _
  | succ fuel ih =>
      apply Restores.bind Restores.get
      intro s
      apply Restores.ite
      · apply Restores.bind (restores_popOp 0)
        intro _
        exact ih
      · exact Restores.pure ()

theorem restores_popNew : Restores (Same level) popNew := by
  apply Restores.bind Restores.get
  intro s
  exact restores_popNewLoop _

theorem restores_setNumSign (sign : Int) :
    Restores (Same level) (setNumSign sign) := by
  apply Restores.read
  intro s
  apply Restores.change
  intro u hu
  exact ⟨hu.numbers, hu.operators, rfl, hu.braceLevel⟩

/-- The end of `teco_expressions_push_int()`. -/
theorem restores_pushNumber (number : TecoInt) :
    Restores (Same level) (do
      modify (fun t => { t with numbers := number :: t.numbers })
      let s <- Undoable.get
      emit (removeNum (s.numbers.length - 1)) : Exec Expressions Unit) := by
  intro s
  have hrun : (do
      modify (fun t => { t with numbers := number :: t.numbers })
      let s <- Undoable.get
      emit (removeNum (s.numbers.length - 1)) : Exec Expressions Unit) s =
        .ok () { s with numbers := number :: s.numbers }
          [removeNum ((number :: s.numbers).length - 1)] := rfl
  apply RestoresAt.of_ok (r := Same level) hrun
  intro u hu
  refine ⟨?_, hu.operators, hu.numSign, hu.braceLevel⟩
  show u.numbers.eraseIdx (u.numbers.length - 1 - _) = _
  rw [hu.numbers]
  exact eraseIdx_top number s.numbers

theorem restores_pushInt (number : TecoInt) :
    Restores (Same level) (pushInt number) := by
  unfold pushInt
  apply Restores.bind restores_popNew
  intro _
  apply Restores.bind (restores_pushOp _)
  intro _
  apply Restores.bind Restores.get
  intro s
  dsimp only
  apply Restores.ite
  · apply Restores.bind
    · exact restores_setNumSign 1
    · intro _
      exact restores_pushNumber _
  · exact restores_pushNumber _

theorem restores_popNum (index : Nat) :
    Restores (Same level) (popNum index) := by
  apply Restores.bind (restores_popOp 0)
  intro op
  apply Restores.ite
  · apply Restores.read
    intro s
    split
    case isTrue =>
        cases hpeek : s.peekNum index with
        | none => trivial
        | some n =>
            have hrun : (do
                emit (insertNum (s.numbers.length - 1 - index) n)
                modify (fun t =>
                  { t with numbers := t.numbers.eraseIdx index })
                Pure.pure n : Exec Expressions TecoInt) s =
                .ok n { s with numbers := s.numbers.eraseIdx index }
                  [insertNum (s.numbers.length - 1 - index) n] := rfl
            apply RestoresAt.of_ok (r := Same level) hrun
            intro u hu
            constructor
            · show u.numbers.insertIdx (u.numbers.length - _) n = _
              rw [hu.numbers]
              exact insertIdx_eraseIdx hpeek
            · exact hu.operators
            · exact hu.numSign
            · exact hu.braceLevel
    case isFalse => exact Restores.pure _ s
  · exact Restores.fault _

/-!
## Operators
-/

theorem restores_calcTop : Restores (Same level) calcTop := by
  apply Restores.bind Restores.get
  intro s
  apply Restores.ite
  · apply Restores.bind (restores_popNum 0)
    intro vright
    apply Restores.bind (restores_popOp 0)
    intro op
    apply Restores.bind Restores.get
    intro t
    apply Restores.ite
    · apply Restores.bind (restores_popNum 0)
      intro vleft
      cases op with
      | none => exact Restores.fault _
      | some op =>
          cases op with
          | new => exact Restores.fault _
          | brace => exact Restores.fault _
          | number => exact Restores.fault _
          | real op =>
              apply Restores.bind (Restores.ofExcept _)
              intro result
              exact restores_pushInt result
    · exact Restores.throw _
  · exact Restores.throw _

theorem restores_pushCalcLoop (op : BinaryOp) (fuel : Nat) :
    Restores (Same level) (pushCalcLoop op fuel) := by
  induction fuel with
  | zero => exact Restores.fault _
  | succ fuel ih =>
      apply Restores.bind Restores.get
      intro s
      cases s.firstOp with
      | none => exact Restores.pure ()
      | some first =>
          dsimp only
          cases s.peekOp first with
          | none => exact Restores.fault _
          | some top =>
              apply Restores.ite
              · exact Restores.pure ()
              · apply Restores.bind restores_calcTop
                intro _
                exact ih

theorem restores_pushCalc (op : BinaryOp) :
    Restores (Same level) (pushCalc op) := by
  apply Restores.bind Restores.get
  intro s
  apply Restores.bind (restores_pushCalcLoop op _)
  intro _
  exact restores_pushOp _

theorem restores_evalLoop (popBrace : Bool) (fuel : Nat) :
    Restores (Same level) (evalLoop popBrace fuel) := by
  induction fuel with
  | zero => exact Restores.fault _
  | succ fuel ih =>
      apply Restores.bind Restores.get
      intro s
      cases s.firstOp with
      | none => exact Restores.pure ()
      | some n =>
          apply Restores.ite
          · apply Restores.ite
            · apply Restores.bind (restores_popOp n)
              intro _
              exact Restores.pure ()
            · exact Restores.pure ()
          · apply Restores.ite
            · exact Restores.pure ()
            · apply Restores.bind restores_calcTop
              intro _
              exact ih

theorem restores_eval (popBrace : Bool) :
    Restores (Same level) (eval popBrace) := by
  apply Restores.bind Restores.get
  intro s
  exact restores_evalLoop popBrace _

/-!
## Arguments
-/

theorem restores_popNumCalc (imply : TecoInt) :
    Restores (Same level) (popNumCalc imply) := by
  have htake : Restores (Same level) (do
      let s <- Undoable.get
      if s.args > 0 then popNum 0 else Pure.pure imply :
        Exec Expressions TecoInt) := by
    apply Restores.bind Restores.get
    intro s
    apply Restores.ite
    · exact restores_popNum 0
    · exact Restores.pure imply
  apply Restores.bind (restores_eval false)
  intro _
  apply Restores.bind Restores.get
  intro s
  dsimp only
  apply Restores.ite
  · apply Restores.bind (restores_setNumSign 1)
    intro _
    exact htake
  · exact htake

theorem restores_addDigit (radix : TecoInt) (digit : Nat) :
    Restores (Same level) (addDigit radix digit) := by
  apply Restores.bind Restores.get
  intro s
  dsimp only
  apply Restores.ite
  · apply Restores.bind (restores_popNum 0)
    intro n
    exact restores_pushInt _
  · rw [pure_bind]
    exact restores_pushInt _

theorem restores_discardArgsLoop (args : Nat) :
    Restores (Same level) (discardArgsLoop args) := by
  induction args with
  | zero => exact Restores.pure ()
  | succ args ih =>
      apply Restores.bind (restores_popNumCalc 0)
      intro _
      exact ih

theorem restores_discardArgs : Restores (Same level) discardArgs := by
  apply Restores.bind (restores_eval false)
  intro _
  apply Restores.bind Restores.get
  intro s
  exact restores_discardArgsLoop _

theorem restores_popArgs (args : Nat) :
    Restores (Same level) (popArgs args) := by
  induction args with
  | zero => exact Restores.pure []
  | succ args ih =>
      apply Restores.bind (restores_popNum 0)
      intro n
      apply Restores.bind ih
      intro rest
      exact Restores.pure _

theorem restores_pushArgs (ns : List TecoInt) :
    Restores (Same level) (pushArgs ns) := by
  induction ns with
  | nil => exact Restores.pure ()
  | cons n rest ih =>
      apply Restores.bind (restores_pushInt n)
      intro _
      exact ih

/-!
## Braces

The brace level is saved once, before it is changed.  What comes after the
token may change the level without another one.
-/

theorem restores_undoBraceLevel {α : Type} {m : Exec Expressions α}
    (hm : Restores (Same false) m) :
    Restores (Same level) (undoBraceLevel >>= fun _ => m) := by
  intro s
  have hs := hm s
  have hrun : undoBraceLevel s =
      .ok () s [fun t => { t with braceLevel := s.braceLevel }] := rfl
  show RestoresAt (Same level) (Undoable.bind undoBraceLevel (fun _ => m)) s
  unfold RestoresAt at hs ⊢
  unfold Undoable.bind
  rw [hrun]
  dsimp only
  have hlast : forall t, Same false t s ->
      Same level { t with braceLevel := s.braceLevel } s := by
    intro t ht
    exact ⟨ht.numbers, ht.operators, ht.numSign, fun _ => rfl⟩
  cases hstep : m s with
  | ok a t later =>
      rw [hstep] at hs
      intro u hu
      rw [unwind_append]
      exact hlast _ (hs u hu.weaken)
  | error e t later =>
      rw [hstep] at hs
      intro u hu
      rw [unwind_append]
      exact hlast _ (hs u hu.weaken)
  | fault c => trivial

theorem restores_setBraceLevel (braces : Nat) :
    Restores (Same false) (setBraceLevel braces) := by
  intro s
  have hrun : setBraceLevel braces s =
      .ok () { s with braceLevel := braces } [] := rfl
  apply RestoresAt.of_ok (r := Same false) hrun
  intro u hu
  exact ⟨hu.numbers, hu.operators, hu.numSign, fun hfalse => by cases hfalse⟩

theorem restores_braceOpen : Restores (Same level) braceOpen := by
  apply Restores.bind restores_popNew
  intro _
  apply Restores.bind (restores_pushOp _)
  intro _
  apply restores_undoBraceLevel
  apply Restores.bind Restores.get
  intro s
  exact restores_setBraceLevel _

theorem restores_braceClose : Restores (Same level) braceClose := by
  apply Restores.bind Restores.get
  intro s
  apply Restores.ite
  · exact Restores.throw _
  · apply restores_undoBraceLevel
    apply Restores.bind (restores_setBraceLevel _)
    intro _
    exact restores_eval true

theorem restores_braceReturnLoop (levels : Nat) :
    Restores (Same false) (braceReturnLoop levels) := by
  induction levels with
  | zero => exact Restores.pure ()
  | succ levels ih =>
      apply Restores.bind restores_discardArgs
      intro _
      apply Restores.bind (restores_eval true)
      intro _
      apply Restores.bind Restores.get
      intro s
      apply Restores.bind (restores_setBraceLevel _)
      intro _
      exact ih

theorem restores_braceReturn (keepBraces args : Nat) :
    Restores (Same level) (braceReturn keepBraces args) := by
  apply Restores.bind (restores_popArgs args)
  intro returnNumbers
  apply restores_undoBraceLevel
  apply Restores.bind Restores.get
  intro s
  apply Restores.bind (restores_braceReturnLoop _)
  intro _
  exact restores_pushArgs returnNumbers

/-!
## Fuel

The loops of the model end before their fuel does, from every state.
-/

/-- A computation which does not run out of fuel. -/
def Ends {α : Type} (m : Exec Expressions α) : Prop :=
  forall s, wp m (fun _ _ => True) (fun _ _ => True)
    (fun c => c ≠ Fault.outOfFuel) s

namespace Ends

variable {α β : Type}

theorem bind {m : Exec Expressions α} {f : α -> Exec Expressions β}
    (hm : Ends m) (hf : forall a, Ends (f a)) : Ends (m >>= f) := by
  intro s
  rw [wp_bind]
  apply wp_call (hm s)
  intro a t _
  exact hf a t

theorem pure (a : α) : Ends (Pure.pure a : Exec Expressions α) :=
  fun _ => trivial

theorem get : Ends (Undoable.get : Exec Expressions Expressions) :=
  fun _ => trivial

theorem ite {c : Prop} [Decidable c] {m n : Exec Expressions α}
    (hm : Ends m) (hn : Ends n) : Ends (if c then m else n) := by
  split
  · exact hm
  · exact hn

theorem fault {c : Fault} (h : c ≠ Fault.outOfFuel) :
    Ends (Undoable.fault c : Exec Expressions α) := fun _ => h

theorem throw (e : TecoError) :
    Ends (Undoable.throw e : Exec Expressions α) := fun _ => trivial

theorem handle {m : Exec Expressions α}
    {handler : TecoError -> Exec Expressions α} (hm : Ends m)
    (hhandler : forall e, Ends (handler e)) :
    Ends (Undoable.handle m handler) := by
  intro s
  rw [wp_handle]
  apply wp_mono (hm s)
  · intro a t _
    trivial
  · intro e t _
    exact hhandler e t
  · intro c hc
    exact hc

theorem pushOp (op : Operator) : Ends (Expressions.pushOp op) :=
  fun _ => trivial

theorem pushInt (n : TecoInt) : Ends (Expressions.pushInt n) := by
  intro s
  rw [wp_pushInt]
  trivial

theorem setNumSign (sign : Int) : Ends (Expressions.setNumSign sign) := by
  intro s
  rw [wp_setNumSign]
  trivial

theorem popOp (index : Nat) : Ends (Expressions.popOp index) := by
  apply bind get
  intro s
  apply ite
  · cases s.peekOp index with
    | none =>
        apply fault
        decide
    | some op => exact fun _ => trivial
  · exact pure none

theorem popNum (index : Nat) : Ends (Expressions.popNum index) := by
  apply bind (popOp 0)
  intro op
  apply ite
  · apply bind get
    intro s
    apply ite
    · cases s.peekNum index with
      | none =>
          apply fault
          decide
      | some n => exact fun _ => trivial
    · exact pure 0
  · apply fault
    decide

theorem ofExcept {result : Except (Stop TecoError Fault) α}
    (h : result ≠ .error (.fault Fault.outOfFuel)) :
    Ends (Undoable.ofExcept result) := by
  rcases result with (e | c) | a
  · exact throw e
  · apply fault
    intro hc
    rw [hc] at h
    exact h rfl
  · exact pure a

theorem calcTop : Ends Expressions.calcTop := by
  apply bind get
  intro s
  apply ite
  · apply bind (popNum 0)
    intro vright
    apply bind (popOp 0)
    intro op
    apply bind get
    intro t
    apply ite
    · apply bind (popNum 0)
      intro vleft
      have hassert : Ends
          (Undoable.fault Fault.assertNotReached : Exec Expressions Unit) :=
        fault (by decide)
      cases op with
      | none => exact hassert
      | some op =>
          cases op with
          | new => exact hassert
          | brace => exact hassert
          | number => exact hassert
          | real op =>
              apply bind
              · apply ofExcept
                cases op <;> simp only [applyOp, division] <;>
                  (repeat' split) <;> simp
              · intro result
                exact pushInt result
    · exact throw _
  · exact throw _

theorem pushCalc (op : BinaryOp) : Ends (Expressions.pushCalc op) := by
  intro s
  apply wp_pushCalc_of_invariant (fun _ => True) trivial
  · intro t _ _
    exact calcTop t
  · intro t _ _
    trivial

theorem eval (popBrace : Bool) : Ends (Expressions.eval popBrace) := by
  intro s
  cases popBrace with
  | false =>
      apply wp_eval_of_invariant (fun _ => True) trivial
      · intro t _ _
        exact calcTop t
      · intro t _ _
        trivial
  | true =>
      rw [wp_eval_true]
      apply wp_eval_of_invariant (fun _ => True) trivial
      · intro t _ _
        exact calcTop t
      · intro t _ _
        trivial

theorem popNumCalc (imply : TecoInt) :
    Ends (Expressions.popNumCalc imply) := by
  have htake : Ends (do
      let s <- Undoable.get
      if s.args > 0 then Expressions.popNum 0 else Pure.pure imply) := by
    apply bind get
    intro s
    apply ite
    · exact popNum 0
    · exact pure imply
  apply bind (eval false)
  intro _
  apply bind get
  intro s
  dsimp only
  apply ite
  · apply bind (setNumSign 1)
    intro _
    exact htake
  · exact htake

theorem addDigit (radix : TecoInt) (digit : Nat) :
    Ends (Expressions.addDigit radix digit) := by
  apply bind get
  intro s
  dsimp only
  apply ite
  · apply bind (popNum 0)
    intro n
    exact pushInt _
  · rw [pure_bind]
    exact pushInt _

theorem discardArgs : Ends Expressions.discardArgs := by
  have hloop : forall args, Ends (discardArgsLoop args) := by
    intro args
    induction args with
    | zero => exact pure ()
    | succ args ih =>
        apply bind (popNumCalc 0)
        intro _
        exact ih
  apply bind (eval false)
  intro _
  apply bind get
  intro s
  exact hloop _

theorem undoBraceLevel : Ends Expressions.undoBraceLevel :=
  fun _ => trivial

theorem setBraceLevel (braces : Nat) :
    Ends (Expressions.setBraceLevel braces) := fun _ => trivial

theorem braceOpen : Ends Expressions.braceOpen := by
  intro s
  unfold Expressions.braceOpen
  rw [wp_bind, wp_popNew]
  trivial

theorem braceClose : Ends Expressions.braceClose := by
  apply bind get
  intro s
  apply ite
  · exact throw _
  · apply bind undoBraceLevel
    intro _
    apply bind (setBraceLevel _)
    intro _
    exact eval true

theorem popArgs (args : Nat) : Ends (Expressions.popArgs args) := by
  induction args with
  | zero => exact pure []
  | succ args ih =>
      apply bind (popNum 0)
      intro n
      apply bind ih
      intro rest
      exact pure _

theorem pushArgs (ns : List TecoInt) : Ends (Expressions.pushArgs ns) := by
  induction ns with
  | nil => exact pure ()
  | cons n rest ih =>
      apply bind (pushInt n)
      intro _
      exact ih

theorem braceReturn (keepBraces args : Nat) :
    Ends (Expressions.braceReturn keepBraces args) := by
  have hloop : forall levels, Ends (braceReturnLoop levels) := by
    intro levels
    induction levels with
    | zero => exact pure ()
    | succ levels ih =>
        apply bind discardArgs
        intro _
        apply bind (eval true)
        intro _
        apply bind get
        intro s
        apply bind (setBraceLevel _)
        intro _
        exact ih
  apply bind (popArgs args)
  intro returnNumbers
  apply bind undoBraceLevel
  intro _
  apply bind get
  intro s
  apply bind (hloop _)
  intro _
  exact pushArgs returnNumbers

end Ends

/-!
## Sequences of calls
-/

/-- Any call into `expressions.c` but `teco_expressions_clear()`, which is not
undoable.  Nothing is assumed about the arguments. -/
inductive ApiCall where
  | pushInt (n : TecoInt)
  | pushOp (op : Operator)
  | pushCalc (op : BinaryOp)
  | addDigit (radix : TecoInt) (digit : Nat)
  | setNumSign (sign : Int)
  | eval (popBrace : Bool)
  | popNum (index : Nat)
  | popOp (index : Nat)
  | popNumCalc (imply : TecoInt)
  | discardArgs
  | braceOpen
  | braceClose
  | braceReturn (keepBraces args : Nat)

def ApiCall.run : ApiCall -> Exec Expressions Unit
  | .pushInt n => Expressions.pushInt n
  | .pushOp op => Expressions.pushOp op
  | .pushCalc op => Expressions.pushCalc op
  | .addDigit radix digit => Expressions.addDigit radix digit
  | .setNumSign sign => Expressions.setNumSign sign
  | .eval popBrace => Expressions.eval popBrace
  | .popNum index => do
      let _ <- Expressions.popNum index
      pure ()
  | .popOp index => do
      let _ <- Expressions.popOp index
      pure ()
  | .popNumCalc imply => do
      let _ <- Expressions.popNumCalc imply
      pure ()
  | .discardArgs => Expressions.discardArgs
  | .braceOpen => Expressions.braceOpen
  | .braceClose => Expressions.braceClose
  | .braceReturn keepBraces args => Expressions.braceReturn keepBraces args

theorem ApiCall.restores (c : ApiCall) : Restores (Same level) c.run := by
  cases c with
  | pushInt n => exact restores_pushInt n
  | pushOp op => exact restores_pushOp op
  | pushCalc op => exact restores_pushCalc op
  | addDigit radix digit => exact restores_addDigit radix digit
  | setNumSign sign => exact restores_setNumSign sign
  | eval popBrace => exact restores_eval popBrace
  | popNum index =>
      apply Restores.bind (restores_popNum index)
      intro _
      exact Restores.pure ()
  | popOp index =>
      apply Restores.bind (restores_popOp index)
      intro _
      exact Restores.pure ()
  | popNumCalc imply =>
      apply Restores.bind (restores_popNumCalc imply)
      intro _
      exact Restores.pure ()
  | discardArgs => exact restores_discardArgs
  | braceOpen => exact restores_braceOpen
  | braceClose => exact restores_braceClose
  | braceReturn keepBraces args => exact restores_braceReturn keepBraces args

/-- A sequence of calls, which goes on after every error. -/
def runApiCalls : List ApiCall -> Exec Expressions Unit
  | [] => pure ()
  | c :: rest => do
      handle c.run (fun _ => pure ())
      runApiCalls rest

theorem restores_runApiCalls (calls : List ApiCall) :
    Restores (Same level) (runApiCalls calls) := by
  induction calls with
  | nil => exact Restores.pure ()
  | cons c rest ih =>
      apply Restores.bind
      · apply Restores.handle c.restores
        intro e
        exact Restores.pure ()
      · intro _
        exact ih

theorem ApiCall.ends (c : ApiCall) : Ends c.run := by
  cases c with
  | pushInt n => exact Ends.pushInt n
  | pushOp op => exact Ends.pushOp op
  | pushCalc op => exact Ends.pushCalc op
  | addDigit radix digit => exact Ends.addDigit radix digit
  | setNumSign sign => exact Ends.setNumSign sign
  | eval popBrace => exact Ends.eval popBrace
  | popNum index =>
      apply Ends.bind (Ends.popNum index)
      intro _
      exact Ends.pure ()
  | popOp index =>
      apply Ends.bind (Ends.popOp index)
      intro _
      exact Ends.pure ()
  | popNumCalc imply =>
      apply Ends.bind (Ends.popNumCalc imply)
      intro _
      exact Ends.pure ()
  | discardArgs => exact Ends.discardArgs
  | braceOpen => exact Ends.braceOpen
  | braceClose => exact Ends.braceClose
  | braceReturn keepBraces args => exact Ends.braceReturn keepBraces args

theorem ends_runApiCalls (calls : List ApiCall) : Ends (runApiCalls calls) := by
  induction calls with
  | nil => exact Ends.pure ()
  | cons c rest ih =>
      apply Ends.bind
      · apply Ends.handle c.ends
        intro e
        exact Ends.pure ()
      · intro _
        exact ih

/-- Errors do not leave the sequence. -/
theorem runApiCalls_no_error (calls : List ApiCall) (s : Expressions) :
    wp (runApiCalls calls) (fun _ _ => True) (fun _ _ => False)
      (fun _ => True) s := by
  induction calls generalizing s with
  | nil => trivial
  | cons c rest ih =>
      show wp (handle c.run (fun _ => pure ()) >>= fun _ => runApiCalls rest)
        _ _ _ s
      rw [wp_bind, wp_handle]
      apply wp_of_forall
      · intro _ t
        exact ih t
      · intro e t
        exact ih t
      · intro _
        trivial

/-- The tokens of a sequence of calls, some of which may have failed, lead back
to the stacks, the sign and the brace level before it. -/
theorem runApiCalls_undo (calls : List ApiCall) (s : Expressions) :
    match runApiCalls calls s with
    | .ok _ t tokens => unwind tokens t = s
    | .error _ _ _ => False
    | .fault c => c ≠ Fault.outOfFuel := by
  have hrestores : Restores Eq (runApiCalls calls) := by
    rw [<- same_true]
    exact restores_runApiCalls calls
  have hends := ends_runApiCalls calls s
  have herror := runApiCalls_no_error calls s
  unfold wp at hends herror
  cases hrun : runApiCalls calls s with
  | ok a t tokens => exact hrestores.unwind_ok hrun
  | error e t tokens =>
      rw [hrun] at herror
      exact herror
  | fault c =>
      rw [hrun] at hends
      exact hends

/-- `1(2/0)` where the closing brace fails, and a number after the error. -/
example : exists t tokens,
    runApiCalls [.pushInt 1, .braceOpen, .pushInt 2, .pushCalc .div,
      .pushInt 0, .braceClose, .setNumSign (-1), .pushInt 3] initial =
        .ok () t tokens ∧
      t.numbers = [-3, 1] ∧ t.braceLevel = 0 ∧ tokens.length > 0 :=
  ⟨_, _, rfl, rfl, rfl, by decide⟩

end Expressions
end SciTECO
