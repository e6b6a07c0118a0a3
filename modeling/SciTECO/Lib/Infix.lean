import Mathlib.Tactic.Common

/-!
# Infix expressions and their trees

A chain is what is written down: operands that alternate with binary
operators.  Its tree follows the precedence of the operators, and operators of
one precedence associate to the left.

Chains and the trees that respect the precedence are in bijection.
-/

namespace Infix

mutual

/-- An operand is a literal or a chain in parentheses. -/
inductive Operand (ω ℓ : Type) where
  | lit (value : ℓ)
  | group (chain : Chain ω ℓ)

/-- Operands joined by operators, as they are written from left to right. -/
inductive Chain (ω ℓ : Type) where
  | single (operand : Operand ω ℓ)
  | snoc (chain : Chain ω ℓ) (op : ω) (operand : Operand ω ℓ)

end

/-- Expression trees.  Parentheses are kept. -/
inductive ExprTree (ω ℓ : Type) where
  | lit (value : ℓ)
  | group (inner : ExprTree ω ℓ)
  | node (op : ω) (left right : ExprTree ω ℓ)

namespace ExprTree

variable {ω ℓ : Type} (prec : ω -> Nat)

/-- The precedence of the root exceeds `p`.  Literals and parentheses bind
stronger than any operator. -/
def Above (p : Nat) : ExprTree ω ℓ -> Prop
  | node op _ _ => p < prec op
  | _ => True

/-- The precedence of the root is at least `p`. -/
def AtLeast (p : Nat) : ExprTree ω ℓ -> Prop
  | node op _ _ => p <= prec op
  | _ => True

theorem atLeast_zero (t : ExprTree ω ℓ) : t.AtLeast prec 0 := by
  cases t with
  | lit value => trivial
  | group inner => trivial
  | node op left right => exact Nat.zero_le _

theorem Above.atLeast {p q : Nat} {t : ExprTree ω ℓ} (h : t.Above prec q)
    (hpq : p <= q) : t.AtLeast prec p := by
  cases t with
  | lit value => trivial
  | group inner => trivial
  | node op left right => exact Nat.le_of_lt (Nat.lt_of_le_of_lt hpq h)

/-- Everywhere in the tree, the right operand binds stronger than its operator
and the left operand at least as strong. -/
def Respects : ExprTree ω ℓ -> Prop
  | lit _ => True
  | group inner => inner.Respects
  | node op left right =>
      left.Respects ∧ right.Respects ∧
        left.AtLeast prec (prec op) ∧ right.Above prec (prec op)

/-- Extend a tree by an operator and its right operand. -/
def attach : ExprTree ω ℓ -> ω -> ExprTree ω ℓ -> ExprTree ω ℓ
  | node o left right, op, operand =>
      if prec o < prec op then
        node o left (attach right op operand)
      else
        node op (node o left right) operand
  | t, op, operand => node op t operand

theorem attach_above {p : Nat} {op : ω} {operand : ExprTree ω ℓ}
    {t : ExprTree ω ℓ} (ht : t.Above prec p) (hop : p < prec op) :
    (t.attach prec op operand).Above prec p := by
  cases t with
  | lit value => exact hop
  | group inner => exact hop
  | node o left right =>
      unfold attach
      split
      · exact ht
      · exact hop

theorem attach_respects {op : ω} {operand : ExprTree ω ℓ}
    {t : ExprTree ω ℓ} (ht : t.Respects prec)
    (hoperand : operand.Respects prec)
    (habove : operand.Above prec (prec op)) :
    (t.attach prec op operand).Respects prec := by
  induction t with
  | lit value => exact ⟨trivial, hoperand, trivial, habove⟩
  | group inner _ => exact ⟨ht, hoperand, trivial, habove⟩
  | node o left right _ ihright =>
      unfold attach
      split
      · rename_i hlt
        exact ⟨ht.1, ihright ht.2.1, ht.2.2.1,
          attach_above prec ht.2.2.2 hlt⟩
      · rename_i hge
        exact ⟨ht, hoperand, Nat.not_lt.mp hge, habove⟩

end ExprTree

/-!
## Parsing and unparsing
-/

section Parsing

variable {ω ℓ : Type} (prec : ω -> Nat)

mutual

/-- The tree of an operand. -/
def Operand.parse : Operand ω ℓ -> ExprTree ω ℓ
  | .lit value => .lit value
  | .group chain => .group chain.parse

/-- The tree of a chain. -/
def Chain.parse : Chain ω ℓ -> ExprTree ω ℓ
  | .single operand => operand.parse
  | .snoc chain op operand => chain.parse.attach prec op operand.parse

end

mutual

theorem Operand.parse_respects (operand : Operand ω ℓ) :
    (operand.parse prec).Respects prec := by
  cases operand with
  | lit value => trivial
  | group chain => exact Chain.parse_respects chain

theorem Chain.parse_respects (chain : Chain ω ℓ) :
    (chain.parse prec).Respects prec := by
  cases chain with
  | single operand => exact Operand.parse_respects operand
  | snoc chain op operand =>
      refine ExprTree.attach_respects prec (Chain.parse_respects chain)
        (Operand.parse_respects operand) ?_
      cases operand <;> trivial

end

/-- Two chains that are joined by an operator. -/
def Chain.append (c : Chain ω ℓ) (op : ω) : Chain ω ℓ -> Chain ω ℓ
  | .single operand => .snoc c op operand
  | .snoc c' op' operand => .snoc (c.append op c') op' operand

/-- The chain that writes a tree down. -/
def ExprTree.unparse : ExprTree ω ℓ -> Chain ω ℓ
  | .lit value => .single (.lit value)
  | .group inner => .single (.group inner.unparse)
  | .node op left right => left.unparse.append op right.unparse

theorem ExprTree.unparse_attach {op : ω} {x : ExprTree ω ℓ}
    {operand : Operand ω ℓ} (hx : x.unparse = .single operand)
    (t : ExprTree ω ℓ) :
    (t.attach prec op x).unparse = .snoc t.unparse op operand := by
  induction t with
  | lit value => simp [attach, unparse, hx, Chain.append]
  | group inner _ => simp [attach, unparse, hx, Chain.append]
  | node o left right _ ihright =>
      unfold attach
      split
      · simp [unparse, ihright, Chain.append]
      · simp [unparse, hx, Chain.append]

mutual

theorem Operand.unparse_parse (operand : Operand ω ℓ) :
    (operand.parse prec).unparse = .single operand := by
  cases operand with
  | lit value => rfl
  | group chain =>
      simp only [Operand.parse, ExprTree.unparse]
      rw [Chain.unparse_parse chain]

/-- Parsing loses nothing of what is written. -/
theorem Chain.unparse_parse (chain : Chain ω ℓ) :
    (chain.parse prec).unparse = chain := by
  cases chain with
  | single operand => exact Operand.unparse_parse operand
  | snoc chain op operand =>
      simp only [Chain.parse]
      rw [ExprTree.unparse_attach prec (Operand.unparse_parse operand),
        Chain.unparse_parse chain]

end

theorem ExprTree.above_of_attach {p : Nat} {op : ω} {x t : ExprTree ω ℓ}
    (h : (t.attach prec op x).Above prec p) :
    t.Above prec p ∧ p < prec op := by
  cases t with
  | lit value => exact ⟨trivial, h⟩
  | group inner => exact ⟨trivial, h⟩
  | node o left right =>
      unfold attach at h
      split at h
      · rename_i hlt
        exact ⟨h, Nat.lt_trans h hlt⟩
      · rename_i hge
        exact ⟨Nat.lt_of_lt_of_le h (Nat.not_lt.mp hge), h⟩

theorem ExprTree.attach_atLeast {op : ω} {x t : ExprTree ω ℓ}
    (h : t.AtLeast prec (prec op)) :
    t.attach prec op x = .node op t x := by
  cases t with
  | lit value => rfl
  | group inner => rfl
  | node o left right => simp [attach, Nat.not_lt.mpr h]

theorem Chain.parse_append {op : ω} {c : Chain ω ℓ}
    (hc : (c.parse prec).AtLeast prec (prec op)) (c' : Chain ω ℓ)
    (hc' : (c'.parse prec).Above prec (prec op)) :
    (c.append op c').parse prec =
      .node op (c.parse prec) (c'.parse prec) := by
  match c' with
  | .single operand => exact ExprTree.attach_atLeast prec hc
  | .snoc c'' op' operand =>
      simp only [Chain.append, Chain.parse] at hc' ⊢
      obtain ⟨habove, hlt⟩ := ExprTree.above_of_attach prec hc'
      rw [Chain.parse_append hc c'' habove]
      simp [ExprTree.attach, hlt]

/-- Only one tree that respects the precedence is written as a given chain. -/
theorem ExprTree.parse_unparse {t : ExprTree ω ℓ} (h : t.Respects prec) :
    t.unparse.parse prec = t := by
  induction t with
  | lit value => rfl
  | group inner ih =>
      simp only [unparse, Chain.parse, Operand.parse]
      rw [ih h]
  | node op left right ihleft ihright =>
      have hleft := ihleft h.1
      have hright := ihright h.2.1
      rw [unparse, Chain.parse_append prec (by rw [hleft]; exact h.2.2.1)
        right.unparse (by rw [hright]; exact h.2.2.2), hleft, hright]

end Parsing

end Infix
