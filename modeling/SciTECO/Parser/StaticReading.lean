import SciTECO.Parser.Tidy

/-!
# The static reading of a macro

A macro can be read from its beginning to its end without executing it.  Such a
reading tells at which positions commands begin, and which labels there are.
-/

namespace SciTECO
namespace Parser

variable {toUpper : Gunichar -> Gunichar} {env : Env}

/-- A position in a text, with the state in which it is reached: the syntax,
the label that is being read and the labels that have been defined. -/
structure StaticReading where
  pc : Nat
  shape : Syntax
  name : Bytes
  labels : List (Bytes × Nat)
deriving DecidableEq, Repr

namespace StaticReading

variable {text : Bytes} {r r' : StaticReading}

/-- The beginning of a text. -/
def first : StaticReading :=
  { pc := 0, shape := Syntax.fresh, name := [], labels := [] }

/-- The next character. -/
def nextChar (text : Bytes) (r : StaticReading) : Gunichar :=
  utf8GetChar (text.drop r.pc)

/-- The position behind the next character. -/
def behind (text : Bytes) (r : StaticReading) : Nat :=
  r.pc + utf8Skip ((text.drop r.pc).headD 0)

/-- The next character ends a label. -/
def EndsLabel (text : Bytes) (r : StaticReading) : Prop :=
  r.shape.current = MainState.label ∧ r.name ≠ [] ∧
    r.nextChar text = '!'.toNat

instance (text : Bytes) (r : StaticReading) : Decidable (r.EndsLabel text) :=
  inferInstanceAs (Decidable (_ ∧ _ ∧ _))

/-- What has been read of a label behind the next character. -/
def nextName (text : Bytes) (r : StaticReading) : Bytes :=
  if r.shape.current ≠ MainState.label then r.name
  else if r.name = [] ∧ r.nextChar text = '*'.toNat then []
  else if r.nextChar text = '!'.toNat then []
  else r.name ++ unicharToUtf8 (r.nextChar text)

/-- The first definition of a label counts. -/
def nextLabels (text : Bytes) (r : StaticReading) : List (Bytes × Nat) :=
  if r.EndsLabel text ∧ gotoTableFind r.labels r.name = none then
    (r.name, r.behind text) :: r.labels
  else r.labels

variable (toUpper env text) in
/-- Read a character. -/
def next (r : StaticReading) : Option StaticReading :=
  if r.pc < text.length then
    (r.shape.step toUpper env (r.nextChar text)).map (fun shape =>
      { pc := r.behind text
        shape := shape
        name := r.nextName text
        labels := r.nextLabels text })
  else none

variable (toUpper env text) in
/-- Read a number of characters. -/
def after : Nat -> Option StaticReading
  | 0 => some first
  | n + 1 => (after n).bind (next toUpper env text)

theorem next_some (h : r.next toUpper env text = some r') :
    r.pc < text.length ∧
      r.shape.step toUpper env (r.nextChar text) = some r'.shape ∧
      r'.pc = r.behind text ∧ r'.name = r.nextName text ∧
      r'.labels = r.nextLabels text := by
  unfold next at h
  split at h
  case isTrue hpc =>
      rcases Option.map_eq_some_iff.mp h with ⟨shape, hshape, heq⟩
      cases heq
      exact ⟨hpc, hshape, rfl, rfl, rfl⟩
  case isFalse => cases h

theorem after_succ {n : Nat} (h : after toUpper env text (n + 1) = some r') :
    exists r, after toUpper env text n = some r ∧
      r.next toUpper env text = some r' :=
  Option.bind_eq_some_iff.mp h

/-- What holds of a reading from the beginning on. -/
theorem after_induct {p : Nat -> StaticReading -> Prop} (hfirst : p 0 first)
    (hnext : forall n r r', after toUpper env text n = some r -> p n r ->
      r.next toUpper env text = some r' -> p (n + 1) r')
    {n : Nat} (h : after toUpper env text n = some r) : p n r := by
  induction n generalizing r with
  | zero =>
      cases h
      exact hfirst
  | succ n ih =>
      rcases after_succ h with ⟨r₀, hr₀, hstep⟩
      exact hnext n r₀ r hr₀ (ih hr₀) hstep

theorem tidy_after {n : Nat} (h : after toUpper env text n = some r) :
    r.shape.Tidy :=
  after_induct (p := fun _ r => r.shape.Tidy) Syntax.tidy_fresh
    (fun _ _ _ _ htidy hnext =>
      Syntax.tidy_step htidy (next_some hnext).2.1) h

/-- Positions increase. -/
theorem pc_lt_behind (text : Bytes) (r : StaticReading) :
    r.pc < r.behind text := by
  have hskip (b : UInt8) : 0 < utf8Skip b := by
    unfold utf8Skip
    repeat' split
    all_goals decide
  exact Nat.lt_add_of_pos_right (hskip _)

theorem after_lt {m n : Nat} (hlt : m < n)
    (hm : after toUpper env text m = some r)
    (hn : after toUpper env text n = some r') : r.pc < r'.pc := by
  induction n generalizing r' with
  | zero => exact absurd hlt (Nat.not_lt_zero m)
  | succ n ih =>
      rcases after_succ hn with ⟨r₀, hr₀, hstep⟩
      have hpc : r₀.pc < r'.pc := by
        rw [(next_some hstep).2.2.1]
        exact pc_lt_behind text r₀
      rcases Nat.lt_or_eq_of_le (Nat.le_of_lt_succ hlt) with hlt | rfl
      · exact (ih hlt hr₀).trans hpc
      · rw [hm] at hr₀
        cases hr₀
        exact hpc

/-- A position is reached in one way. -/
theorem after_unique {m n : Nat} (hm : after toUpper env text m = some r)
    (hn : after toUpper env text n = some r') (hpc : r.pc = r'.pc) :
    m = n ∧ r = r' := by
  have heq : m = n := by
    rcases Nat.lt_trichotomy m n with hlt | heq | hlt
    · exact absurd hpc (Nat.ne_of_lt (after_lt hlt hm hn))
    · exact heq
    · exact absurd hpc.symm (Nat.ne_of_lt (after_lt hlt hn hm))
  rw [heq, hn] at hm
  exact ⟨heq, (Option.some.inj hm).symm⟩

/-- Everything before a position that is reached is in the text. -/
theorem after_before {k n : Nat} (hlt : k < n)
    (hn : after toUpper env text n = some r') :
    exists r, after toUpper env text k = some r ∧ r.pc < text.length := by
  induction n generalizing r' with
  | zero => exact absurd hlt (Nat.not_lt_zero k)
  | succ n ih =>
      rcases after_succ hn with ⟨r, hr, hnext⟩
      rcases Nat.lt_or_eq_of_le (Nat.le_of_lt_succ hlt) with hlt | rfl
      · exact ih hlt hr
      · exact ⟨r, hr, (next_some hnext).1⟩

/-- There is one reading at the end of a text. -/
theorem after_end {k n : Nat} (hn : after toUpper env text n = some r)
    (hk : after toUpper env text k = some r')
    (hend : text.length ≤ r.pc) (hend' : text.length ≤ r'.pc) : r' = r := by
  have hinside {i j : Nat} {p q : StaticReading} (hlt : i < j)
      (hi : after toUpper env text i = some p)
      (hj : after toUpper env text j = some q) :
      p.pc < text.length := by
    rcases after_before hlt hj with ⟨p', hp', hpc⟩
    rw [hi] at hp'
    cases hp'
    exact hpc
  rcases Nat.lt_trichotomy k n with hlt | rfl | hlt
  · exact absurd hend' (Nat.not_le.mpr (hinside hlt hk hn))
  · rw [hn] at hk
    exact (Option.some.inj hk).symm
  · exact absurd hend (Nat.not_le.mpr (hinside hlt hn hk))

/-!
## Definitions of labels
-/

variable (toUpper env text) in
/-- The character after the first `k` ones completes a label, and `pc` is the
position behind it. -/
def Defines (k : Nat) (name : Bytes) (pc : Nat) : Prop :=
  exists r r', after toUpper env text k = some r ∧
    r.next toUpper env text = some r' ∧ r.EndsLabel text ∧
    r.name = name ∧ r'.pc = pc

variable (toUpper env text) in
/-- The first definition of a label among the first `n` characters. -/
def DefinesFirst (n : Nat) (name : Bytes) (pc : Nat) : Prop :=
  exists k, k < n ∧ Defines toUpper env text k name pc ∧
    forall j, j < k -> forall p, ¬ Defines toUpper env text j name p

variable (toUpper env text) in
/-- The first definition of a label in the whole text. -/
def IsLabel (name : Bytes) (pc : Nat) : Prop :=
  exists n, DefinesFirst toUpper env text n name pc

section Labels

variable {n k : Nat} {name other : Bytes} {pc pc' : Nat}

theorem Defines.functional (h : Defines toUpper env text k name pc)
    (h' : Defines toUpper env text k other pc') :
    name = other ∧ pc = pc' := by
  rcases h with ⟨r, r', hr, hnext, _, hname, hpc⟩
  rcases h' with ⟨q, q', hq, hnext', _, hname', hpc'⟩
  rw [hr] at hq
  cases hq
  rw [hnext] at hnext'
  cases hnext'
  exact ⟨hname.symm.trans hname', hpc.symm.trans hpc'⟩

/-- The first definition is the only first one, however far the text has been
read. -/
theorem DefinesFirst.unique {m : Nat}
    (h : DefinesFirst toUpper env text n name pc)
    (h' : DefinesFirst toUpper env text m name pc') : pc = pc' := by
  rcases h with ⟨k, _, hk, hfirst⟩
  rcases h' with ⟨j, _, hj, hfirst'⟩
  rcases Nat.lt_trichotomy k j with hlt | rfl | hlt
  · exact absurd hk (hfirst' k hlt pc)
  · exact (hk.functional hj).2
  · exact absurd hj (hfirst j hlt pc')

theorem DefinesFirst.mono {m : Nat} (hle : n ≤ m)
    (h : DefinesFirst toUpper env text n name pc) :
    DefinesFirst toUpper env text m name pc := by
  rcases h with ⟨k, hk, hrest⟩
  exact ⟨k, Nat.lt_of_lt_of_le hk hle, hrest⟩

/-- What a character does to the labels. -/
theorem find_nextLabels (hnext : r.next toUpper env text = some r') :
    gotoTableFind r'.labels name =
      if gotoTableFind r.labels name = none ∧ r.EndsLabel text ∧
          r.name = name then some r'.pc
      else gotoTableFind r.labels name := by
  rcases next_some hnext with ⟨_, _, hpc, _, hlabels⟩
  rw [hlabels, hpc]
  unfold nextLabels
  by_cases hends : r.EndsLabel text ∧ gotoTableFind r.labels r.name = none
  · rw [if_pos hends]
    by_cases hname : r.name = name
    · cases hname
      rw [if_pos ⟨hends.2, hends.1, rfl⟩]
      exact List.lookup_cons_self
    · rw [if_neg (fun h => hname h.2.2)]
      have hne : (name == r.name) = false :=
        beq_eq_false_iff_ne.mpr (fun heq => hname heq.symm)
      unfold gotoTableFind
      rw [List.lookup_cons, hne]
  · rw [if_neg hends, if_neg]
    rintro ⟨hnone, hlabel, rfl⟩
    exact hends ⟨hlabel, hnone⟩

/-- A label is unknown as long as no definition has been read. -/
theorem labels_none (h : after toUpper env text n = some r) :
    gotoTableFind r.labels name = none <->
      forall k, k < n -> forall pc, ¬ Defines toUpper env text k name pc := by
  apply after_induct (p := fun n r => gotoTableFind r.labels name = none <->
    forall k, k < n -> forall pc, ¬ Defines toUpper env text k name pc) _ _ h
  · constructor
    · exact fun _ k hk => absurd hk (Nat.not_lt_zero k)
    · exact fun _ => rfl
  · intro n r r' hr ih hnext
    rw [find_nextLabels hnext]
    split
    case isTrue hdefines =>
        constructor
        · intro hnone
          cases hnone
        · intro hall
          exact absurd ⟨r, r', hr, hnext, hdefines.2.1, hdefines.2.2, rfl⟩
            (hall n (Nat.lt_succ_self n) r'.pc)
    case isFalse hno =>
        rw [ih]
        constructor
        · intro hall k hk pc hdefines
          rcases Nat.lt_or_eq_of_le (Nat.le_of_lt_succ hk) with hlt | rfl
          · exact hall k hlt pc hdefines
          · rcases hdefines with ⟨q, _, hq, _, hends, hname, _⟩
            rw [hr] at hq
            cases hq
            exact hno ⟨ih.mpr hall, hends, hname⟩
        · exact fun hall k hk => hall k (Nat.lt_succ_of_lt hk)

/-- The labels that have been read are those of the definitions, each with its
first position. -/
theorem labels_some (h : after toUpper env text n = some r) :
    gotoTableFind r.labels name = some pc <->
      DefinesFirst toUpper env text n name pc := by
  have hfirst : forall pc, gotoTableFind r.labels name = some pc ->
      DefinesFirst toUpper env text n name pc := by
    apply after_induct (p := fun n r => forall pc,
      gotoTableFind r.labels name = some pc ->
        DefinesFirst toUpper env text n name pc) _ _ h
    · intro pc hfind
      cases hfind
    · intro n r r' hr ih hnext pc hfind
      rw [find_nextLabels hnext] at hfind
      split at hfind
      case isTrue hdefines =>
          cases hfind
          exact ⟨n, Nat.lt_succ_self n,
            ⟨r, r', hr, hnext, hdefines.2.1, hdefines.2.2, rfl⟩,
            (labels_none hr).mp hdefines.1⟩
      case isFalse => exact (ih pc hfind).mono (Nat.le_succ n)
  constructor
  · exact hfirst pc
  · intro hdefined
    cases hfind : gotoTableFind r.labels name with
    | none =>
        rcases hdefined with ⟨k, hk, hdefines, _⟩
        exact absurd hdefines ((labels_none h).mp hfind k hk pc)
    | some pc' => rw [(hfirst pc' hfind).unique hdefined]

/-- A text is read on, at the end of what has been read of it or before. -/
theorem scan {m : Nat} {q : StaticReading} (hle : n ≤ m)
    (hr : after toUpper env text n = some r)
    (hnext : r.next toUpper env text = some r')
    (hq : after toUpper env text m = some q) :
    exists m' q', m ≤ m' ∧ n < m' ∧ after toUpper env text m' = some q' ∧
      q.pc ≤ q'.pc ∧
      q'.labels =
        if r.EndsLabel text ∧ gotoTableFind q.labels r.name = none then
          (r.name, r.behind text) :: q.labels
        else q.labels := by
  rcases Nat.lt_or_eq_of_le hle with hlt | rfl
  · refine ⟨m, q, Nat.le_refl m, hlt, hq, Nat.le_refl _, ?_⟩
    rw [if_neg]
    rintro ⟨hends, hnone⟩
    exact (labels_none hq).mp hnone n hlt r'.pc
      ⟨r, r', hr, hnext, hends, rfl, rfl⟩
  · rw [hr] at hq
    cases hq
    refine ⟨n + 1, r', Nat.le_succ n, Nat.lt_succ_self n, ?_, ?_, ?_⟩
    · exact Option.bind_eq_some_iff.mpr ⟨r, hr, hnext⟩
    · rw [(next_some hnext).2.2.1]
      exact Nat.le_of_lt (pc_lt_behind text r)
    · exact (next_some hnext).2.2.2.2

/-- No label is defined behind the end of the text. -/
theorem Defines.lt_of_end (h : Defines toUpper env text k name pc)
    (hr : after toUpper env text n = some r)
    (hend : text.length ≤ r.pc) : k < n := by
  rcases h with ⟨q, _, hq, hnext, _⟩
  have hlt := (next_some hnext).1
  rcases Nat.lt_trichotomy k n with hlt' | rfl | hgt
  · exact hlt'
  · rw [hr] at hq
    cases hq
    exact absurd hend (Nat.not_le.mpr hlt)
  · have hpc := after_lt hgt hr hq
    exact absurd (hend.trans (Nat.le_of_lt hpc)) (Nat.not_le.mpr hlt)

end Labels

end StaticReading

end Parser
end SciTECO
