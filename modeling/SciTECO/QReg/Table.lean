import SciTECO.Strings
import SciTECO.Lib.SearchTree

/-!
# Register tables

The registers of a table are in a search tree, ordered by their names.
-/

namespace SciTECO

/-!
## Comparing strings
-/

/-- `gchar`, which is signed. -/
def gchar (b : UInt8) : Int := if b < 0x80 then b.toNat else b.toNat - 256

theorem gchar_inj {b c : UInt8} (h : gchar b = gchar c) : b = c := by
  have hb := b.toNat_lt
  have hc := c.toNat_lt
  have hb' : b < 0x80 <-> b.toNat < 128 := Iff.rfl
  have hc' : c < 0x80 <-> c.toNat < 128 := Iff.rfl
  unfold gchar at h
  apply UInt8.toNat_inj.mp
  split at h
  · split at h
    · omega
    · omega
  · split at h
    · omega
    · omega

/-- The loop of `teco_string_cmp()` and `teco_string_casecmp()`. -/
def compareBy (fold : UInt8 -> UInt8) : Bytes -> Bytes -> Int
  | [], [] => 0
  | [], _ :: _ => -1
  | _ :: _, [] => 1
  | x :: a, y :: b =>
      if gchar (fold x) - gchar (fold y) ≠ 0 then
        gchar (fold x) - gchar (fold y)
      else compareBy fold a b

/-- `teco_string_cmp()`. -/
def stringCmp : Bytes -> Bytes -> Int := compareBy id

theorem stringCmp_cons (x y : UInt8) (a b : Bytes) :
    stringCmp (x :: a) (y :: b) =
      if gchar x - gchar y ≠ 0 then gchar x - gchar y else stringCmp a b := rfl

theorem stringCmp_nil_cons (y : UInt8) (b : Bytes) :
    stringCmp [] (y :: b) = -1 := rfl

theorem stringCmp_cons_nil (x : UInt8) (a : Bytes) :
    stringCmp (x :: a) [] = 1 := rfl

theorem stringCmp_self (a : Bytes) : stringCmp a a = 0 := by
  induction a with
  | nil => rfl
  | cons x a ih =>
      rw [stringCmp_cons, Int.sub_self, if_neg (fun h => h rfl)]
      exact ih

theorem eq_of_stringCmp {a b : Bytes} (h : stringCmp a b = 0) : a = b := by
  induction a generalizing b with
  | nil =>
      cases b with
      | nil => rfl
      | cons y b => cases h
  | cons x a ih =>
      cases b with
      | nil => cases h
      | cons y b =>
          rw [stringCmp_cons] at h
          split at h
          · next hne => exact absurd h hne
          · next heq =>
              have hxy : x = y :=
                gchar_inj (Int.sub_eq_zero.mp (Decidable.not_not.mp heq))
              rw [hxy, ih h]

theorem stringCmp_swap (a b : Bytes) :
    0 < stringCmp a b <-> stringCmp b a < 0 := by
  induction a generalizing b with
  | nil =>
      cases b with
      | nil => decide
      | cons y b =>
          rw [stringCmp_nil_cons, stringCmp_cons_nil]
          decide
  | cons x a ih =>
      cases b with
      | nil =>
          rw [stringCmp_nil_cons, stringCmp_cons_nil]
          decide
      | cons y b =>
          rw [stringCmp_cons, stringCmp_cons]
          by_cases hxy : gchar x - gchar y ≠ 0
          · have hyx : gchar y - gchar x ≠ 0 := by omega
            rw [if_pos hxy, if_pos hyx]
            omega
          · have hyx : ¬ gchar y - gchar x ≠ 0 := by omega
            rw [if_neg hxy, if_neg hyx]
            exact ih b

theorem stringCmp_trans {a b c : Bytes} (hab : stringCmp a b < 0)
    (hbc : stringCmp b c ≤ 0) : stringCmp a c < 0 := by
  induction a generalizing b c with
  | nil =>
      cases c with
      | nil =>
          cases b with
          | nil => exact hab
          | cons y b =>
              rw [stringCmp_cons_nil] at hbc
              exact absurd hbc (by decide)
      | cons z c =>
          rw [stringCmp_nil_cons]
          decide
  | cons x a ih =>
      cases b with
      | nil =>
          rw [stringCmp_cons_nil] at hab
          exact absurd hab (by decide)
      | cons y b =>
          cases c with
          | nil =>
              rw [stringCmp_cons_nil] at hbc
              exact absurd hbc (by decide)
          | cons z c =>
              rw [stringCmp_cons] at hab hbc ⊢
              by_cases hxy : gchar x - gchar y ≠ 0
              · rw [if_pos hxy] at hab
                by_cases hyz : gchar y - gchar z ≠ 0
                · rw [if_pos hyz] at hbc
                  rw [if_pos (by omega)]
                  omega
                · rw [if_pos (by omega)]
                  omega
              · rw [if_neg hxy] at hab
                by_cases hyz : gchar y - gchar z ≠ 0
                · rw [if_pos hyz] at hbc
                  rw [if_pos (by omega)]
                  omega
                · rw [if_neg hyz] at hbc
                  rw [if_neg (by omega)]
                  exact ih hab hbc

namespace QRegTable

/-!
## Registers
-/

/-- Registers of which the string is outside of the table. -/
inductive External where
  | bufferInfo
  | workingDir
  | clipboard (name : Bytes)
deriving DecidableEq

def External.name : External -> Bytes
  | bufferInfo => ['*'.toUInt8]
  | workingDir => ['$'.toUInt8]
  | clipboard name => '~'.toUInt8 :: name

/-- `teco_qreg_t` with its string. -/
inductive Register where
  | plain (name string : Bytes)
  | external (kind : External)
deriving DecidableEq

/-- What the external registers stand for. -/
structure Externals where
  getString : External -> Except TecoError Bytes
  setString : External -> Bytes -> Except TecoError Unit

namespace Register

def name : Register -> Bytes
  | plain name _ => name
  | external kind => kind.name

/-- `get_string` of the register. -/
def getString (externals : Externals) : Register -> Except TecoError Bytes
  | plain _ string => .ok string
  | external kind => externals.getString kind

/-- `set_string` of the register. -/
def setString (externals : Externals) (str : Bytes) :
    Register -> Except TecoError Register
  | plain name _ => .ok (plain name str)
  | external kind =>
      (externals.setString kind str).map (fun _ => external kind)

end Register

/-- How a register compares with a name. -/
def cutAt (name : Bytes) (q : Register) : Int := stringCmp q.name name

/-- Registers in the order of their names. -/
def Ordered (l : List Register) : Prop :=
  l.Pairwise (fun q r => stringCmp q.name r.name < 0)

theorem Ordered.cut {l : List Register} (h : Ordered l) (name : Bytes) :
    SearchTree.Cut (cutAt name) l := by
  refine h.imp ?_
  intro q r hqr hq
  unfold cutAt at hq ⊢
  have hnot : ¬ stringCmp r.name name ≤ 0 := fun hr =>
    Int.not_lt.mpr hq (stringCmp_trans hqr hr)
  exact Int.not_le.mp hnot

/-- `teco_qreg_table_t`. -/
structure Table where
  tree : SearchTree Register
  ordered : Ordered tree.toList

namespace Table

variable (t : Table)

def registers : List Register := t.tree.toList

theorem cut (name : Bytes) :
    SearchTree.Cut (cutAt name) t.tree.toList :=
  t.ordered.cut name

/-- A new register goes between those below and those above. -/
theorem ordered_link {q : Register}
    (h : SearchTree.find (cutAt q.name) t.tree = none) :
    Ordered (SearchTree.link (cutAt q.name) q t.tree).toList := by
  have hcut := t.cut q.name
  have hne := SearchTree.find_none hcut h
  have hordered := t.ordered
  rw [<- @SearchTree.belowCut_append_fromCut _ (cutAt q.name) t.tree.toList]
    at hordered
  rcases List.pairwise_append.mp hordered with ⟨hbelow, hfrom, hacross⟩
  rw [SearchTree.toList_link hcut]
  refine List.pairwise_append.mpr
    ⟨hbelow, List.pairwise_cons.mpr ⟨?_, hfrom⟩, ?_⟩
  · intro r hr
    have hmem : r ∈ t.tree.toList := (List.dropWhile_sublist _).subset hr
    have hpos := SearchTree.mem_fromCut hcut hr
    have hzero := hne r hmem
    unfold cutAt at hpos hzero
    exact (stringCmp_swap r.name q.name).mp (by omega)
  · intro r hr r' hr'
    rcases List.mem_cons.mp hr' with rfl | hr'
    · have hlt := SearchTree.mem_belowCut hr
      exact hlt
    · exact hacross r hr r' hr'

theorem ordered_replace (q : Register) :
    Ordered (SearchTree.replace (cutAt q.name) q t.tree).toList := by
  rw [SearchTree.toList_replace (t.cut q.name)]
  have hname : forall r : Register,
      (if cutAt q.name r = 0 then q else r).name = r.name := by
    intro r
    split
    · next h => exact (eq_of_stringCmp h).symm
    · rfl
  refine List.pairwise_map.mpr (t.ordered.imp ?_)
  intro r r' h
  rw [hname, hname]
  exact h

/-- `teco_qreg_table_insert()`.  The table stays as it is when there is a
register of that name, which is returned. -/
def insert (balance : SearchTree.Rebalancing Register) (q : Register) :
    Option Register × Table :=
  match h : SearchTree.find (cutAt q.name) t.tree with
  | some found => (some found, t)
  | none =>
      (none,
        { tree := balance.apply (SearchTree.link (cutAt q.name) q t.tree)
          ordered := by
            rw [balance.toList_apply]
            exact t.ordered_link h })

/-- Store a changed register. -/
def store (q : Register) : Table where
  tree := SearchTree.replace (cutAt q.name) q t.tree
  ordered := t.ordered_replace q

/-- Without a register of that name, it is inserted in its place. -/
theorem insert_new {balance : SearchTree.Rebalancing Register} {q : Register}
    (h : forall r, r ∈ t.registers -> r.name ≠ q.name) :
    exists t', t.insert balance q = (none, t') ∧ exists below above,
      t.registers = below ++ above ∧ t'.registers = below ++ q :: above := by
  have hnone : SearchTree.find (cutAt q.name) t.tree = none := by
    cases hfind : SearchTree.find (cutAt q.name) t.tree with
    | none => rfl
    | some r =>
        have hr := SearchTree.find_some hfind
        exact absurd (eq_of_stringCmp hr.2) (h r hr.1)
  unfold insert
  split
  · next found hfound =>
      rw [hnone] at hfound
      cases hfound
  · refine ⟨_, rfl, SearchTree.belowCut (cutAt q.name) t.registers,
      SearchTree.fromCut (cutAt q.name) t.registers, ?_, ?_⟩
    · exact (SearchTree.belowCut_append_fromCut _).symm
    · unfold registers
      dsimp only
      rw [balance.toList_apply, SearchTree.toList_link (t.cut q.name)]

/-- Only the register of that name changes. -/
theorem store_registers {q r : Register} {below above : List Register}
    (h : t.registers = below ++ r :: above) (hname : r.name = q.name) :
    (t.store q).registers = below ++ q :: above := by
  have hordered := t.ordered
  unfold registers at h
  have hcut := t.cut q.name
  have hr : cutAt q.name r = 0 := by
    unfold cutAt
    rw [hname]
    exact stringCmp_self _
  rw [h] at hcut
  unfold registers store
  dsimp only
  rw [SearchTree.toList_replace (t.cut q.name), h, List.map_append,
    List.map_cons, if_pos hr,
    SearchTree.map_of_ne (fun b hb =>
      Int.ne_of_lt (hcut.below (Int.le_of_eq hr) b hb)),
    SearchTree.map_of_ne (fun b hb =>
      (Int.ne_of_lt (hcut.above (Int.le_of_eq hr.symm) b hb)).symm)]

end Table
end QRegTable
end SciTECO
