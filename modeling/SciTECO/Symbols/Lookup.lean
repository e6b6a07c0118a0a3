import SciTECO.Completion.AutoComplete
import SciTECO.Lib.BinarySearch

/-!
# Symbols

The names of Scintilla's symbols are constant arrays in alphabetical order.
They share a prefix, which may be left out in a query.
-/

namespace SciTECO
namespace Symbols

/-- A null-terminated string. -/
structure CString where
  bytes : Bytes
  noNull : 0 ∉ bytes

namespace CString

/-- The string from a character on. -/
def drop (a : CString) (n : Nat) : CString where
  bytes := a.bytes.drop n
  noNull := fun h => a.noNull (List.mem_of_mem_drop h)

/-- Two strings in one. -/
def append (a b : CString) : CString where
  bytes := a.bytes ++ b.bytes
  noNull := fun h => (List.mem_append.mp h).elim a.noNull b.noNull

end CString

/-- `teco_symbol_entry_t`. -/
structure SymbolEntry where
  name : CString
  value : Int

/-- `teco_symbol_list_t`.  The number of entries is a `gint`. -/
structure SymbolList where
  entries : List SymbolEntry
  caseSensitive : Bool
  fits : entries.length < 2 ^ 31

/-- The loops of `strncmp()` and `g_ascii_strncasecmp()`. -/
def strncmpBy (fold : UInt8 -> UInt8) : Nat -> Bytes -> Bytes -> Int
  | 0, _, _ => 0
  | _ + 1, [], [] => 0
  | _ + 1, [], y :: _ => -(y.toNat : Int)
  | _ + 1, x :: _, [] => x.toNat
  | n + 1, x :: a, y :: b =>
      if fold x = fold y then strncmpBy fold n a b
      else (fold x).toNat - (fold y).toNat

namespace SymbolList

variable (ctx : SymbolList)

/-- How the comparison function takes a character. -/
def fold : UInt8 -> UInt8 :=
  if ctx.caseSensitive then id else Completion.asciiTolower

/-- `cmp_fnc`. -/
def cmpFnc (a b : Bytes) (n : Nat) : Int := strncmpBy ctx.fold n a b

/-- The bytes of a name that are not compared. -/
def prefixSkip (name pre : Bytes) : Nat :=
  if ctx.cmpFnc name pre pre.length = 0 then 0 else pre.length

/-- `teco_symbol_list_lookup()`. -/
def lookup (name pre : CString) : Except Fault Int :=
  let skip := ctx.prefixSkip name.bytes pre.bytes
  let cmp := fun entry : SymbolEntry =>
    ctx.cmpFnc (entry.name.bytes.drop skip) name.bytes
      (name.bytes.length + 1)
  match BinarySearch.search cmp ctx.entries (ctx.entries.length + 1) 0
      (ctx.entries.length - 1) with
  | .found entry => .ok entry.value
  | .absent => .ok (-1)
  | .outOfBounds => .error Fault.outOfBounds
  | .outOfFuel => .error Fault.outOfFuel

/-- A name begins with the prefix. -/
def Carries (name pre : Bytes) : Prop := ctx.cmpFnc name pre pre.length = 0

instance (name pre : Bytes) : Decidable (ctx.Carries name pre) :=
  inferInstanceAs (Decidable (_ = _))

/-- Two names are equal. -/
def Same (a b : Bytes) : Prop := ctx.cmpFnc a b (b.length + 1) = 0

instance (a b : Bytes) : Decidable (ctx.Same a b) :=
  inferInstanceAs (Decidable (_ = _))

/-- The names are sorted without duplicates. -/
def Sorted : Prop :=
  ctx.entries.Pairwise (fun a b => ctx.cmpFnc a.name.bytes b.name.bytes
    (b.name.bytes.length + 1) < 0)

end SymbolList

/-!
## The order of names
-/

section

variable {fold : UInt8 -> UInt8}

/-- The characters as they are compared. -/
def folded (fold : UInt8 -> UInt8) (a : Bytes) : List Nat :=
  a.map (fun b => (fold b).toNat)

theorem folded_append (a b : Bytes) :
    folded fold (a ++ b) = folded fold a ++ folded fold b :=
  List.map_append

theorem toNat_pos {x : UInt8} (h : x ≠ 0) : 0 < x.toNat := by
  apply Nat.pos_of_ne_zero
  exact fun hzero => h (UInt8.toNat_inj.mp hzero)

/-- The comparison up to the end of the right string is that of the folded
characters. -/
theorem strncmpBy_order {a b : Bytes} (ha : 0 ∉ a) (hb : 0 ∉ b) {n : Nat}
    (hn : b.length < n) :
    (strncmpBy fold n a b < 0 <-> folded fold a < folded fold b) ∧
      (strncmpBy fold n a b = 0 <-> folded fold a = folded fold b) := by
  induction b generalizing a n with
  | nil =>
      cases n with
      | zero => cases hn
      | succ n =>
          cases a with
          | nil =>
              exact ⟨⟨fun h => absurd h (Int.lt_irrefl 0),
                fun h => absurd h (List.not_lt_nil _)⟩,
                ⟨fun _ => rfl, fun _ => rfl⟩⟩
          | cons x a =>
              have hx := toNat_pos (fun h : x = 0 =>
                ha (h ▸ List.mem_cons_self))
              rw [strncmpBy]
              constructor
              · constructor
                · intro h
                  omega
                · exact fun h => absurd h (List.not_lt_nil _)
              · constructor
                · intro h
                  omega
                · intro h
                  cases h
  | cons y b ih =>
      cases n with
      | zero => cases hn
      | succ n =>
          have hy := toNat_pos (fun h : y = 0 =>
            hb (h ▸ List.mem_cons_self))
          cases a with
          | nil =>
              rw [strncmpBy]
              constructor
              · exact ⟨fun _ => List.nil_lt_cons _ _, fun _ => by omega⟩
              · constructor
                · intro h
                  omega
                · intro h
                  cases h
          | cons x a =>
              have hrest := ih (fun h => ha (List.mem_cons_of_mem x h))
                (fun h => hb (List.mem_cons_of_mem y h))
                (Nat.lt_of_succ_lt_succ hn)
              have hhead : folded fold (x :: a) < folded fold (y :: b) <->
                  (fold x).toNat < (fold y).toNat ∨
                    (fold x).toNat = (fold y).toNat ∧
                      folded fold a < folded fold b :=
                List.cons_lt_cons_iff
              have hsame : folded fold (x :: a) = folded fold (y :: b) <->
                  (fold x).toNat = (fold y).toNat ∧
                    folded fold a = folded fold b := List.cons_eq_cons
              rw [strncmpBy, hhead, hsame]
              by_cases hxy : fold x = fold y
              · rw [if_pos hxy, hxy]
                constructor
                · rw [hrest.1]
                  constructor
                  · exact fun h => Or.inr ⟨rfl, h⟩
                  · rintro (h | h)
                    · exact absurd h (Nat.lt_irrefl _)
                    · exact h.2
                · rw [hrest.2]
                  exact ⟨fun h => ⟨rfl, h⟩, fun h => h.2⟩
              · have hne : (fold x).toNat ≠ (fold y).toNat :=
                  fun h => hxy (UInt8.toNat_inj.mp h)
                rw [if_neg hxy]
                constructor
                · constructor
                  · intro h
                    exact Or.inl (by omega)
                  · rintro (h | h)
                    · omega
                    · exact absurd h.1 hne
                · constructor
                  · intro h
                    omega
                  · exact fun h => absurd h.1 hne

/-- The comparison of as many characters as a prefix has. -/
theorem strncmpBy_begins {a b : Bytes} (ha : 0 ∉ a) (hb : 0 ∉ b) :
    strncmpBy fold b.length a b = 0 <-> folded fold b <+: folded fold a := by
  induction b generalizing a with
  | nil => exact ⟨fun _ => List.nil_prefix, fun _ => rfl⟩
  | cons y b ih =>
      have hy := toNat_pos (fun h : y = 0 => hb (h ▸ List.mem_cons_self))
      rw [List.length_cons]
      cases a with
      | nil =>
          rw [strncmpBy]
          constructor
          · intro h
            omega
          · exact fun h => absurd (List.prefix_nil.mp h) (by simp [folded])
      | cons x a =>
          have hrest := ih (fun h => ha (List.mem_cons_of_mem x h))
            (fun h => hb (List.mem_cons_of_mem y h))
          have hcons : folded fold (y :: b) <+: folded fold (x :: a) <->
              (fold y).toNat = (fold x).toNat ∧
                folded fold b <+: folded fold a := List.cons_prefix_cons
          rw [strncmpBy, hcons]
          by_cases hxy : fold x = fold y
          · rw [if_pos hxy, hrest, hxy]
            exact ⟨fun h => ⟨rfl, h⟩, fun h => h.2⟩
          · have hne : (fold x).toNat ≠ (fold y).toNat :=
              fun h => hxy (UInt8.toNat_inj.mp h)
            rw [if_neg hxy]
            constructor
            · intro h
              omega
            · exact fun h => absurd h.1.symm hne

end

theorem lt_of_append_lt {front a b : List Nat} (h : front ++ a < front ++ b) :
    a < b := by
  induction front with
  | nil => exact h
  | cons x front ih =>
      rw [List.cons_append, List.cons_append, List.cons_lt_cons_iff] at h
      rcases h with hlt | h
      · exact absurd hlt (Nat.lt_irrefl x)
      · exact ih h.2

/-!
## Looking names up
-/

namespace SymbolList

variable {ctx : SymbolList}

theorem same_iff (a b : CString) :
    ctx.Same a.bytes b.bytes <->
      folded ctx.fold a.bytes = folded ctx.fold b.bytes :=
  (strncmpBy_order a.noNull b.noNull (Nat.lt_succ_self _)).2

theorem carries_iff (a b : CString) :
    ctx.Carries a.bytes b.bytes <->
      folded ctx.fold b.bytes <+: folded ctx.fold a.bytes :=
  strncmpBy_begins a.noNull b.noNull

/-- A name that carries a prefix consists of it and the rest. -/
theorem folded_of_carries {a pre : CString}
    (h : ctx.Carries a.bytes pre.bytes) :
    folded ctx.fold a.bytes = folded ctx.fold pre.bytes ++
      folded ctx.fold (a.drop pre.bytes.length).bytes := by
  rcases (carries_iff a pre).mp h with ⟨rest, hrest⟩
  have hlen : (folded ctx.fold pre.bytes).length = pre.bytes.length :=
    List.length_map _
  have hdrop : folded ctx.fold (a.drop pre.bytes.length).bytes =
      (folded ctx.fold a.bytes).drop pre.bytes.length := List.map_drop
  rw [hdrop, <- hrest, <- hlen, List.drop_left]

/-- The name that is looked for. -/
def wanted (ctx : SymbolList) (name pre : CString) : CString :=
  if ctx.Carries name.bytes pre.bytes then name else pre.append name

/-- What the search compares. -/
def suffixCmp (ctx : SymbolList) (name pre : CString)
    (entry : SymbolEntry) : Int :=
  ctx.cmpFnc (entry.name.bytes.drop (ctx.prefixSkip name.bytes pre.bytes))
    name.bytes (name.bytes.length + 1)

/-- The comparison of the suffixes is that of the names. -/
theorem suffixCmp_order {name pre : CString} {entry : SymbolEntry}
    (h : ctx.Carries entry.name.bytes pre.bytes) :
    (ctx.suffixCmp name pre entry < 0 <->
      folded ctx.fold entry.name.bytes <
        folded ctx.fold (ctx.wanted name pre).bytes) ∧
    (ctx.suffixCmp name pre entry = 0 <->
      ctx.Same entry.name.bytes (ctx.wanted name pre).bytes) := by
  rw [same_iff]
  by_cases hname : ctx.Carries name.bytes pre.bytes
  · have hskip : ctx.prefixSkip name.bytes pre.bytes = 0 := if_pos hname
    have hwanted : ctx.wanted name pre = name := if_pos hname
    unfold suffixCmp
    rw [hskip, hwanted, List.drop_zero]
    exact strncmpBy_order entry.name.noNull name.noNull (Nat.lt_succ_self _)
  · have hskip : ctx.prefixSkip name.bytes pre.bytes = pre.bytes.length :=
      if_neg hname
    have hwanted : ctx.wanted name pre = pre.append name := if_neg hname
    have hfront : folded ctx.fold (pre.append name).bytes =
        folded ctx.fold pre.bytes ++ folded ctx.fold name.bytes :=
      folded_append _ _
    have horder := @strncmpBy_order ctx.fold _ _
      (entry.name.drop pre.bytes.length).noNull name.noNull _
      (Nat.lt_succ_self name.bytes.length)
    unfold suffixCmp
    rw [hskip, hwanted, folded_of_carries h, hfront]
    constructor
    · exact horder.1.trans ⟨List.append_left_lt, lt_of_append_lt⟩
    · exact horder.2.trans (List.append_right_inj _).symm

/-- The search is for a cut. -/
theorem suffixCmp_cut {name pre : CString}
    (hcarry : forall entry, entry ∈ ctx.entries ->
      ctx.Carries entry.name.bytes pre.bytes) (hsorted : ctx.Sorted) :
    SearchTree.Cut (ctx.suffixCmp name pre) ctx.entries := by
  refine hsorted.imp_of_mem ?_
  intro a b ha hb hab hle
  have horder := @suffixCmp_order ctx name pre a (hcarry a ha)
  have horder' := @suffixCmp_order ctx name pre b (hcarry b hb)
  have hlt := (strncmpBy_order a.name.noNull b.name.noNull
    (Nat.lt_succ_self _)).1.mp hab
  have hnot : ¬ folded ctx.fold a.name.bytes <
      folded ctx.fold (ctx.wanted name pre).bytes :=
    fun h => Int.not_lt.mpr hle (horder.1.mpr h)
  apply Int.not_le.mp
  intro hback
  rcases Int.lt_or_eq_of_le hback with hneg | hzero
  · exact hnot (List.lt_trans hlt (horder'.1.mp hneg))
  · have hsame := (same_iff _ _).mp (horder'.2.mp hzero)
    rw [hsame] at hlt
    exact hnot hlt

/-- `teco_symbol_list_lookup()` finds a name with or without the prefix. -/
theorem lookup_wanted (ctx : SymbolList) (name pre : CString)
    (hcarry : forall entry, entry ∈ ctx.entries ->
      ctx.Carries entry.name.bytes pre.bytes) (hsorted : ctx.Sorted) :
    (forall entry, entry ∈ ctx.entries ->
      ctx.Same entry.name.bytes (ctx.wanted name pre).bytes ->
        ctx.lookup name pre = .ok entry.value) ∧
    ((forall entry, entry ∈ ctx.entries ->
      ¬ ctx.Same entry.name.bytes (ctx.wanted name pre).bytes) ->
        ctx.lookup name pre = .ok (-1)) := by
  have hsearch := BinarySearch.search_cut
    (@suffixCmp_cut ctx name pre hcarry hsorted)
    (Nat.lt_succ_self ctx.entries.length)
  have hdef : ctx.lookup name pre =
      match BinarySearch.search (ctx.suffixCmp name pre) ctx.entries
          (ctx.entries.length + 1) 0 (ctx.entries.length - 1) with
      | .found entry => .ok entry.value
      | .absent => .ok (-1)
      | .outOfBounds => .error Fault.outOfBounds
      | .outOfFuel => .error Fault.outOfFuel := rfl
  rw [hdef]
  constructor
  · intro entry hentry hsame
    have hzero := (@suffixCmp_order ctx name pre entry
      (hcarry entry hentry)).2.mpr hsame
    rw [hsearch.1 entry hentry hzero]
  · intro hnone
    rw [hsearch.2 (fun entry hentry hzero => hnone entry hentry
      ((suffixCmp_order (hcarry entry hentry)).2.mp hzero))]

/-- Two messages, of which one begins with the other one. -/
theorem lookup_wanted_message :
    let ctx : SymbolList :=
      { entries :=
          [{ name := ⟨['S'.toUInt8, '_'.toUInt8, 'A'.toUInt8], by decide⟩
             value := 1 },
           { name := ⟨['S'.toUInt8, '_'.toUInt8, 'A'.toUInt8, 'B'.toUInt8],
               by decide⟩
             value := 2 }]
        caseSensitive := false
        fits := by decide }
    ctx.lookup ⟨['a'.toUInt8, 'b'.toUInt8], by decide⟩
      ⟨['S'.toUInt8, '_'.toUInt8], by decide⟩ = .ok 2 := by
  intro ctx
  have hcarry : forall entry, entry ∈ ctx.entries ->
      ctx.Carries entry.name.bytes ['S'.toUInt8, '_'.toUInt8] := by
    intro entry hentry
    rcases List.mem_cons.mp hentry with rfl | hentry
    · decide
    · rw [List.mem_singleton.mp hentry]
      decide
  have hsorted : ctx.Sorted := by
    apply List.pairwise_pair.mpr
    decide
  exact (lookup_wanted ctx ⟨['a'.toUInt8, 'b'.toUInt8], by decide⟩
    ⟨['S'.toUInt8, '_'.toUInt8], by decide⟩ hcarry hsorted).1 _
      (List.mem_cons_of_mem _ List.mem_cons_self) (by decide)

/-- A query with the prefix is not looked up behind another one. -/
theorem lookup_prefixed_twice :
    ¬ forall (ctx : SymbolList) (name pre : CString),
      (forall entry, entry ∈ ctx.entries ->
        ctx.Carries entry.name.bytes pre.bytes) -> ctx.Sorted ->
      forall entry, entry ∈ ctx.entries ->
        ctx.Same entry.name.bytes name.bytes ∨
          ctx.Same entry.name.bytes (pre.append name).bytes ->
        ctx.lookup name pre = .ok entry.value := by
  intro hall
  have hvalue := hall
    { entries := [⟨⟨['S'.toUInt8, 'S'.toUInt8, 'A'.toUInt8], by decide⟩, 1⟩]
      caseSensitive := true
      fits := by decide }
    ⟨['S'.toUInt8, 'A'.toUInt8], by decide⟩ ⟨['S'.toUInt8], by decide⟩
    (by
      intro entry hentry
      rw [List.mem_singleton.mp hentry]
      decide) (List.pairwise_singleton _ _) _ List.mem_cons_self
    (Or.inr (by decide))
  exact absurd hvalue (by decide)

end SymbolList

end Symbols
end SciTECO
