import SciTECO.QReg.Table

/-!
# Environment registers

The environment variables are imported into registers whose names begin with a
dollar sign, and exported from them.
-/

namespace SciTECO
namespace QRegTable

/-!
## The source functions
-/

/-- `strchr()` as an index. -/
def strchr (chr : UInt8) : Bytes -> Option Nat
  | [] => none
  | b :: rest =>
      if b = chr then some 0
      else if b = 0 then none
      else (strchr chr rest).map (. + 1)

variable (externals : Externals) (balance : SearchTree.Rebalancing Register)

/-- Import an entry.  A register of that name gets the value. -/
def setEnvironEntry (t : Table) (entry : Bytes) :
    Except (Stop TecoError Fault) Table :=
  match strchr '='.toUInt8 entry with
  | none => .error (.fault Fault.assertion)
  | some i =>
      let name := '$'.toUInt8 :: entry.take i
      let value := entry.drop (i + 1)
      let qreg := Register.plain name []
      let (found, t) := t.insert balance qreg
      match (found.getD qreg).setString externals value with
      | .error e => .error (.error e)
      | .ok qreg => .ok (t.store qreg)

/-- `teco_qreg_table_set_environ()`. -/
def setEnviron (env : List Bytes) (t : Table) :
    Except (Stop TecoError Fault) Table :=
  env.foldlM (setEnvironEntry externals balance) t

/-- A register that is in the range of the environment registers. -/
def inRange (q : Register) : Bool := q.name.headD 0 == '$'.toUInt8

/-- Names in that range which are not names of environment registers. -/
def ignored (name : Bytes) : Bool :=
  name.length == 1 || name.contains '='.toUInt8 || name.contains 0

/-- The size of the array of entries, by the first loop. -/
def environLength : Nat -> Option (SearchTree.Position Register) -> Nat
  | fuel + 1, some p =>
      if inRange p.val then environLength fuel p.next + 1 else 1
  | _, _ => 1

def environEntry (name value : Bytes) : Bytes :=
  name.tail ++ '='.toUInt8 :: value

def containsNull (name : Bytes) : TecoError :=
  TecoError.failed ("Environment register \"" ++
    String.ofList (name.map (fun b => Char.ofNat b.toNat)) ++
    "\" must not contain null characters")

/-- Write an entry into the array. -/
def storeEntry (envpLen : Nat) (envp : List Bytes) (entry : Bytes) :
    Except (Stop TecoError Fault) (List Bytes) :=
  if envp.length < envpLen then .ok (envp ++ [entry])
  else .error (.fault Fault.outOfBounds)

/-- Terminate the array. -/
def terminate (envpLen : Nat) (envp : List Bytes) :
    Except (Stop TecoError Fault) (List Bytes) :=
  if envp.length < envpLen then .ok envp
  else .error (.fault Fault.outOfBounds)

/-- The loop that collects the entries. -/
def environLoop (envpLen : Nat) :
    Nat -> Option (SearchTree.Position Register) -> List Bytes ->
      Except (Stop TecoError Fault) (List Bytes)
  | 0, _, _ => .error (.fault Fault.outOfFuel)
  | _ + 1, none, envp => terminate envpLen envp
  | fuel + 1, some p, envp =>
      if inRange p.val then
        if ignored p.val.name then environLoop envpLen fuel p.next envp
        else
          match p.val.getString externals with
          | .error e => .error (.error e)
          | .ok value =>
              if value.contains 0 then
                .error (.error (containsNull p.val.name))
              else
                storeEntry envpLen envp (environEntry p.val.name value) >>=
                  environLoop envpLen fuel p.next
      else terminate envpLen envp

/-- `teco_qreg_table_get_environ()`. -/
def getEnviron (t : Table) : Except (Stop TecoError Fault) (List Bytes) :=
  let first :=
    SearchTree.lowerBound (cutAt ['$'.toUInt8]) t.tree [] none
  let fuel := t.registers.length + 1
  environLoop externals (environLength fuel first) fuel first []

/-!
## The range of the names
-/

theorem cons_of_dollar {name : Bytes} (h : name.headD 0 = '$'.toUInt8) :
    exists rest, name = '$'.toUInt8 :: rest := by
  cases name with
  | nil => exact absurd h (by decide)
  | cons b rest =>
      have hb : b = '$'.toUInt8 := h
      exact ⟨rest, congrArg (. :: rest) hb⟩

theorem dollar_below {name : Bytes} (h : name.headD 0 = '$'.toUInt8) :
    ¬ stringCmp name ['$'.toUInt8] < 0 := by
  rcases cons_of_dollar h with ⟨rest, rfl⟩
  rw [stringCmp_cons, Int.sub_self, if_neg (fun h => h rfl)]
  cases rest with
  | nil => decide
  | cons b rest =>
      rw [stringCmp_cons_nil]
      decide

/-- Behind the range no name begins with a dollar sign. -/
theorem dollar_above {name name' : Bytes}
    (hfrom : ¬ stringCmp name ['$'.toUInt8] < 0)
    (hlt : stringCmp name name' < 0) (h : name'.headD 0 = '$'.toUInt8) :
    name.headD 0 = '$'.toUInt8 := by
  rcases cons_of_dollar h with ⟨rest, rfl⟩
  cases name with
  | nil =>
      rw [stringCmp_nil_cons] at hfrom
      exact absurd (by decide) hfrom
  | cons b name =>
      rw [stringCmp_cons] at hfrom hlt
      by_cases hb : gchar b - gchar '$'.toUInt8 ≠ 0
      · rw [if_pos hb] at hfrom hlt
        exact absurd hlt hfrom
      · exact gchar_inj (Int.sub_eq_zero.mp (Decidable.not_not.mp hb))

theorem takeWhile_inRange {l : List Register} (hordered : Ordered l)
    (hfrom : forall q, q ∈ l -> ¬ stringCmp q.name ['$'.toUInt8] < 0) :
    l.takeWhile inRange = l.filter inRange := by
  induction l with
  | nil => rfl
  | cons q l ih =>
      rcases List.pairwise_cons.mp hordered with ⟨hq, hl⟩
      cases hin : inRange q with
      | true =>
          rw [List.takeWhile_cons_of_pos hin, List.filter_cons_of_pos hin,
            ih hl (fun r hr => hfrom r (List.mem_cons_of_mem q hr))]
      | false =>
          have hneg : ¬ inRange q = true := by
            rw [hin]
            exact Bool.false_ne_true
          rw [List.takeWhile_cons_of_neg hneg, List.filter_cons_of_neg hneg]
          refine (List.filter_eq_nil_iff.mpr ?_).symm
          intro r hr hrange
          refine hneg (beq_iff_eq.mpr ?_)
          exact dollar_above (hfrom q List.mem_cons_self) (hq r hr)
            (beq_iff_eq.mp hrange)

/-- The scan from the first name with a dollar sign meets all of them. -/
theorem scan_inRange {l : List Register} (hordered : Ordered l) :
    (SearchTree.fromCut (cutAt ['$'.toUInt8]) l).takeWhile inRange =
      l.filter inRange := by
  induction l with
  | nil => rfl
  | cons q l ih =>
      rcases List.pairwise_cons.mp hordered with ⟨_, hl⟩
      by_cases hlt : cutAt ['$'.toUInt8] q < 0
      · have hneg : ¬ inRange q = true := fun hin =>
          dollar_below (beq_iff_eq.mp hin) hlt
        rw [SearchTree.fromCut_below hlt, List.filter_cons_of_neg hneg]
        exact ih hl
      · rw [SearchTree.fromCut_cons hlt]
        refine takeWhile_inRange hordered ?_
        have hall : forall r, r ∈ q :: l -> 0 ≤ cutAt ['$'.toUInt8] r := by
          have hcut := hordered.cut ['$'.toUInt8]
          intro r hr
          refine SearchTree.mem_fromCut hcut ?_
          rw [SearchTree.fromCut_cons hlt]
          exact hr
        exact fun r hr => Int.not_lt.mpr (hall r hr)

/-!
## The loops
-/

variable {externals} {balance}

/-- Registers that are exported. -/
def IsEnviron (q : Register) : Prop :=
  inRange q = true ∧ ignored q.name = false

instance (q : Register) : Decidable (IsEnviron q) :=
  inferInstanceAs (Decidable (_ ∧ _))

def isEnviron (q : Register) : Bool := decide (IsEnviron q)

/-- No external register has such a name. -/
theorem plain_of_isEnviron {q : Register} (h : IsEnviron q) :
    exists name string, q = .plain name string := by
  cases q with
  | plain name string => exact ⟨name, string, rfl⟩
  | external kind =>
      rcases h with ⟨hrange, hnot⟩
      cases kind with
      | bufferInfo => exact absurd hrange (by decide)
      | workingDir => exact absurd hnot (by decide)
      | clipboard name =>
          have hhead := beq_iff_eq.mp hrange
          have htilde : '~'.toUInt8 = '$'.toUInt8 := hhead
          exact absurd htilde (by decide)

/-- The string of a register that is not external. -/
def Register.string : Register -> Bytes
  | .plain _ string => string
  | .external _ => []

def Register.entry (q : Register) : Bytes := environEntry q.name q.string

theorem getString_isEnviron {q : Register} (h : IsEnviron q) :
    q.getString externals = .ok q.string := by
  rcases plain_of_isEnviron h with ⟨name, string, rfl⟩
  rfl

/-- The registers in the range, of which the exported ones have no nulls. -/
def Exportable (l : List Register) : Prop :=
  forall q, q ∈ l -> IsEnviron q -> 0 ∉ q.string

theorem environLength_eq {fuel : Nat} :
    forall {cur : Option (SearchTree.Position Register)},
      (SearchTree.rest cur).length < fuel ->
      environLength fuel cur =
        ((SearchTree.rest cur).takeWhile inRange).length + 1 := by
  induction fuel with
  | zero => exact fun h => absurd h (Nat.not_lt_zero _)
  | succ fuel ih =>
      intro cur h
      cases cur with
      | none => rfl
      | some p =>
          rw [SearchTree.rest_next] at h ⊢
          rw [environLength]
          split
          · next hin =>
              rw [ih (Nat.lt_of_succ_lt_succ h),
                List.takeWhile_cons_of_pos hin, List.length_cons]
          · next hnot =>
              rw [List.takeWhile_cons_of_neg hnot]
              rfl

/-- The loop collects the entries of the range in their order. -/
theorem environLoop_ok {envpLen fuel : Nat} :
    forall {cur : Option (SearchTree.Position Register)} {envp : List Bytes},
      (SearchTree.rest cur).length < fuel ->
      envp.length + ((SearchTree.rest cur).takeWhile inRange).length <
        envpLen ->
      Exportable ((SearchTree.rest cur).takeWhile inRange) ->
      environLoop externals envpLen fuel cur envp =
        .ok (envp ++ (((SearchTree.rest cur).takeWhile inRange).filter
          isEnviron).map Register.entry) := by
  induction fuel with
  | zero => exact fun h => absurd h (Nat.not_lt_zero _)
  | succ fuel ih =>
      intro cur envp hfuel hlength hexport
      have hend : forall envp : List Bytes, envp.length < envpLen ->
          terminate envpLen envp = .ok (envp ++ []) := by
        intro envp h
        unfold terminate
        rw [if_pos h, List.append_nil]
      cases cur with
      | none => exact hend envp hlength
      | some p =>
          rw [SearchTree.rest_next] at hfuel hlength hexport ⊢
          rw [environLoop]
          split
          · next hin =>
              rw [List.takeWhile_cons_of_pos hin] at hlength hexport ⊢
              rw [List.length_cons] at hlength
              have hrest : Exportable
                  ((SearchTree.rest p.next).takeWhile inRange) :=
                fun q hq => hexport q (List.mem_cons_of_mem _ hq)
              cases hignored : ignored p.val.name with
              | true =>
                  have hnot : ¬ isEnviron p.val = true := by
                    intro h
                    rw [(of_decide_eq_true h).2] at hignored
                    cases hignored
                  rw [if_pos rfl, List.filter_cons_of_neg hnot]
                  exact ih (Nat.lt_of_succ_lt_succ hfuel) (by omega) hrest
              | false =>
                  have henv : IsEnviron p.val := ⟨hin, hignored⟩
                  have hpos : isEnviron p.val = true := decide_eq_true henv
                  have hnull := hexport p.val List.mem_cons_self henv
                  have hcontains : ¬ p.val.string.contains 0 = true :=
                    fun h => hnull (List.contains_iff_mem.mp h)
                  rw [if_neg Bool.false_ne_true, getString_isEnviron henv]
                  dsimp only
                  rw [if_neg hcontains,
                    List.filter_cons_of_pos hpos, List.map_cons]
                  unfold storeEntry
                  rw [if_pos (by omega)]
                  change environLoop externals envpLen fuel p.next _ = _
                  have hstored : (envp ++ [environEntry p.val.name
                      p.val.string]).length = envp.length + 1 :=
                    List.length_append
                  rw [ih (Nat.lt_of_succ_lt_succ hfuel) (by omega) hrest,
                    List.append_assoc]
                  rfl
          · next hnot =>
              rw [List.takeWhile_cons_of_neg hnot] at hlength ⊢
              exact hend envp hlength

/-- A null in one of the values is an error. -/
theorem environLoop_error {envpLen fuel : Nat} :
    forall {cur : Option (SearchTree.Position Register)} {envp : List Bytes},
      (SearchTree.rest cur).length < fuel ->
      envp.length + ((SearchTree.rest cur).takeWhile inRange).length <
        envpLen ->
      ¬ Exportable ((SearchTree.rest cur).takeWhile inRange) ->
      exists e, environLoop externals envpLen fuel cur envp =
        .error (.error e) := by
  induction fuel with
  | zero => exact fun h => absurd h (Nat.not_lt_zero _)
  | succ fuel ih =>
      intro cur envp hfuel hlength hexport
      cases cur with
      | none => exact absurd (fun q hq => absurd hq List.not_mem_nil) hexport
      | some p =>
          rw [SearchTree.rest_next] at hfuel hlength hexport
          rw [environLoop]
          split
          · next hin =>
              rw [List.takeWhile_cons_of_pos hin] at hlength hexport
              rw [List.length_cons] at hlength
              have hrest : (IsEnviron p.val -> 0 ∉ p.val.string) ->
                  ¬ Exportable
                    ((SearchTree.rest p.next).takeWhile inRange) := by
                intro hp hall
                refine hexport ?_
                intro q hq
                rcases List.mem_cons.mp hq with rfl | hq
                · exact hp
                · exact hall q hq
              cases hignored : ignored p.val.name with
              | true =>
                  rw [if_pos rfl]
                  refine ih (Nat.lt_of_succ_lt_succ hfuel) (by omega)
                    (hrest ?_)
                  intro henv
                  rw [henv.2] at hignored
                  cases hignored
              | false =>
                  have henv : IsEnviron p.val := ⟨hin, hignored⟩
                  rw [if_neg Bool.false_ne_true, getString_isEnviron henv]
                  dsimp only
                  split
                  · exact ⟨_, rfl⟩
                  · next hcontains =>
                      unfold storeEntry
                      rw [if_pos (by omega)]
                      refine ih (Nat.lt_of_succ_lt_succ hfuel) ?_ (hrest ?_)
                      · rw [List.length_append, List.length_singleton]
                        omega
                      · exact fun _ h =>
                          hcontains (List.contains_iff_mem.mpr h)
          · next hnot =>
              rw [List.takeWhile_cons_of_neg hnot] at hexport
              exact absurd (fun q hq => absurd hq List.not_mem_nil) hexport

/-- The registers that are scanned. -/
theorem scan_registers (t : Table) :
    (SearchTree.rest (SearchTree.lowerBound (cutAt ['$'.toUInt8]) t.tree []
      none)).takeWhile inRange = t.registers.filter inRange ∧
    (SearchTree.rest (SearchTree.lowerBound (cutAt ['$'.toUInt8]) t.tree []
      none)).length < t.registers.length + 1 := by
  have hrest := @SearchTree.rest_lowerBound _ _ t.tree [] none
    (t.cut ['$'.toUInt8]) rfl
  rw [hrest]
  change (SearchTree.fromCut _ _ ++ []).takeWhile _ = _ ∧
    (SearchTree.fromCut _ _ ++ []).length < _
  rw [List.append_nil]
  refine ⟨scan_inRange t.ordered, Nat.lt_succ_of_le ?_⟩
  exact (List.dropWhile_sublist _).length_le

theorem filter_isEnviron (l : List Register) :
    (l.filter inRange).filter isEnviron =
      l.filter isEnviron := by
  rw [List.filter_filter]
  refine List.filter_congr ?_
  intro q _
  cases hin : inRange q with
  | true => exact Bool.and_true _
  | false =>
      rw [Bool.and_false]
      refine (decide_eq_false ?_).symm
      intro h
      rw [h.1] at hin
      cases hin

theorem exportable_filter {l : List Register} :
    Exportable (l.filter inRange) <-> Exportable l := by
  constructor
  · exact fun h q hq henv => h q (List.mem_filter.mpr ⟨hq, henv.1⟩) henv
  · exact fun h q hq henv => h q (List.mem_filter.mp hq).1 henv

/-- The export has the entries of the registers without nulls. -/
theorem getEnviron_ok {t : Table} (h : Exportable t.registers) :
    getEnviron externals t =
      .ok ((t.registers.filter isEnviron).map
        Register.entry) := by
  rcases scan_registers t with ⟨hscan, hfuel⟩
  unfold getEnviron
  dsimp only
  rw [environLength_eq hfuel, environLoop_ok hfuel (by simp)
    (by rw [hscan]; exact exportable_filter.mpr h), hscan,
    filter_isEnviron, List.nil_append]

theorem getEnviron_error {t : Table} (h : ¬ Exportable t.registers) :
    exists e, getEnviron externals t = .error (.error e) := by
  rcases scan_registers t with ⟨hscan, hfuel⟩
  unfold getEnviron
  dsimp only
  rw [environLength_eq hfuel]
  exact environLoop_error hfuel (by simp)
    (by rw [hscan]; exact fun hall => h (exportable_filter.mp hall))

/-!
## Import
-/

theorem strchr_behind {chr : UInt8} {front : Bytes} (hchr : chr ∉ front)
    (hnull : 0 ∉ front) (back : Bytes) :
    strchr chr (front ++ chr :: back) = some front.length := by
  induction front with
  | nil => exact if_pos rfl
  | cons b front ih =>
      have hb : b ≠ chr := fun h => hchr (h ▸ List.mem_cons_self)
      have hzero : b ≠ 0 := fun h => hnull (h ▸ List.mem_cons_self)
      rw [List.cons_append, strchr, if_neg hb, if_neg hzero,
        ih (fun h => hchr (List.mem_cons_of_mem b h))
          (fun h => hnull (List.mem_cons_of_mem b h))]
      rfl

/-- A variable with its value. -/
abbrev Variable : Type := Bytes × Bytes

namespace Variable

def line (v : Variable) : Bytes := v.1 ++ '='.toUInt8 :: v.2

def register (v : Variable) : Register := .plain ('$'.toUInt8 :: v.1) v.2

structure Valid (v : Variable) : Prop where
  name_ne : v.1 ≠ []
  noEquals : '='.toUInt8 ∉ v.1
  name_noNull : 0 ∉ v.1
  noNull : 0 ∉ v.2

end Variable

/-- The variables of a process have different names. -/
structure IsEnvironment (env : List Variable) : Prop where
  valid : forall v, v ∈ env -> v.Valid
  distinct : (env.map Prod.fst).Nodup

theorem setEnvironEntry_new {t : Table} {v : Variable} (hv : v.Valid)
    (hnew : forall q, q ∈ t.registers -> q.name ≠ '$'.toUInt8 :: v.1) :
    exists t', setEnvironEntry externals balance t v.line = .ok t' ∧
      t'.registers.Perm (v.register :: t.registers) := by
  have hequals := strchr_behind hv.noEquals hv.name_noNull v.2
  have htake : v.line.take v.1.length = v.1 := List.take_left
  have hdrop : v.line.drop (v.1.length + 1) = v.2 := by
    unfold Variable.line
    rw [List.append_cons]
    exact List.drop_left' (List.length_append)
  rcases @Table.insert_new t balance (.plain ('$'.toUInt8 :: v.1) []) hnew with
    ⟨t', hinsert, below, above, hregisters, hregisters'⟩
  refine ⟨t'.store v.register, ?_, ?_⟩
  · unfold setEnvironEntry
    change (match strchr '='.toUInt8 v.line with
      | none => _
      | some i => _) = _
    unfold Variable.line at htake hdrop ⊢
    rw [hequals]
    dsimp only
    rw [htake, hdrop, hinsert]
    rfl
  · have hstore := @Table.store_registers t' v.register
      (.plain ('$'.toUInt8 :: v.1) []) below above hregisters' rfl
    rw [hstore, hregisters]
    exact List.perm_middle

/-- Every variable gets a register. -/
theorem setEnviron_ok {env : List Variable} (henv : IsEnvironment env) :
    forall {t : Table}, (forall v, v ∈ env -> forall q, q ∈ t.registers ->
        q.name ≠ '$'.toUInt8 :: v.1) ->
      exists t',
        setEnviron externals balance (env.map Variable.line) t = .ok t' ∧
          t'.registers.Perm (env.map Variable.register ++ t.registers) := by
  induction env with
  | nil => exact fun {t} _ => ⟨t, rfl, List.Perm.refl _⟩
  | cons v env ih =>
      intro t hnew
      have hdistinct := List.nodup_cons.mp henv.distinct
      have hrest : IsEnvironment env := {
        valid := fun w hw => henv.valid w (List.mem_cons_of_mem v hw)
        distinct := hdistinct.2 }
      rcases setEnvironEntry_new (henv.valid v List.mem_cons_self)
        (hnew v List.mem_cons_self) with ⟨t', hentry, hperm⟩
      have hnew' : forall w, w ∈ env -> forall q, q ∈ t'.registers ->
          q.name ≠ '$'.toUInt8 :: w.1 := by
        intro w hw q hq
        rcases List.mem_cons.mp (hperm.mem_iff.mp hq) with rfl | hq
        · intro hname
          have hvw : v.1 = w.1 := (List.cons.inj hname).2
          exact hdistinct.1 (hvw ▸ List.mem_map_of_mem hw)
        · exact hnew w (List.mem_cons_of_mem v hw) q hq
      rcases ih hrest hnew' with ⟨t'', hset, hperm'⟩
      refine ⟨t'', ?_, ?_⟩
      · unfold setEnviron at hset ⊢
        rw [List.map_cons, List.foldlM_cons, hentry]
        exact hset
      · refine hperm'.trans ?_
        exact (hperm.append_left _).trans List.perm_middle

/-!
## The environment
-/

/-- A dollar sign with something behind it that is neither an equals sign nor
a null. -/
structure EnvironName (name : Bytes) : Prop where
  dollar : name.head? = some '$'.toUInt8
  long : 1 < name.length
  noEquals : '='.toUInt8 ∉ name
  noNull : 0 ∉ name

theorem isEnviron_iff {q : Register} :
    IsEnviron q <-> EnvironName q.name := by
  unfold IsEnviron inRange ignored
  rw [Bool.or_eq_false_iff, Bool.or_eq_false_iff, beq_iff_eq,
    beq_eq_false_iff_ne]
  constructor
  · rintro ⟨hdollar, ⟨hlength, hequals⟩, hnull⟩
    rcases cons_of_dollar hdollar with ⟨rest, hname⟩
    constructor
    · rw [hname]
      rfl
    · rw [hname] at hlength ⊢
      rw [List.length_cons] at hlength ⊢
      omega
    · intro h
      rw [List.contains_iff_mem.mpr h] at hequals
      cases hequals
    · intro h
      rw [List.contains_iff_mem.mpr h] at hnull
      cases hnull
  · intro h
    have hlong := h.long
    refine ⟨?_, ⟨?_, ?_⟩, ?_⟩
    · rw [List.headD_eq_head?_getD, h.dollar]
      rfl
    · omega
    · exact Bool.eq_false_iff.mpr
        (fun hmem => h.noEquals (List.contains_iff_mem.mp hmem))
    · exact Bool.eq_false_iff.mpr
        (fun hmem => h.noNull (List.contains_iff_mem.mp hmem))

theorem Variable.Valid.environName {v : Variable} (hv : v.Valid) :
    EnvironName v.register.name where
  dollar := rfl
  long := Nat.succ_lt_succ (List.length_pos_iff.mpr hv.name_ne)
  noEquals := by
    intro h
    rcases List.mem_cons.mp h with heq | h
    · exact absurd heq (by decide)
    · exact hv.noEquals h
  noNull := by
    intro h
    rcases List.mem_cons.mp h with heq | h
    · exact absurd heq (by decide)
    · exact hv.name_noNull h

/-- What has been imported is exported. -/
theorem getEnviron_setEnviron {t : Table} {env : List Variable}
    (henv : IsEnvironment env)
    (hothers : forall q, q ∈ t.registers ->
      q.name.head? = some '$'.toUInt8 -> q.name = ['$'.toUInt8]) :
    exists t' envp,
      setEnviron externals balance (env.map Variable.line) t = .ok t' ∧
        getEnviron externals t' = .ok envp ∧
        envp.Perm (env.map Variable.line) := by
  have hnone : forall q, q ∈ t.registers -> ¬ IsEnviron q := by
    intro q hq h
    have hname := isEnviron_iff.mp h
    have hlong := hname.long
    rw [hothers q hq hname.dollar] at hlong
    exact absurd hlong (by decide)
  have hnew : forall v, v ∈ env -> forall q, q ∈ t.registers ->
      q.name ≠ '$'.toUInt8 :: v.1 := by
    intro v hv q hq hname
    refine hnone q hq (isEnviron_iff.mpr ?_)
    rw [hname]
    exact (henv.valid v hv).environName
  rcases setEnviron_ok henv hnew with ⟨t', hset, hperm⟩
  have hmem : forall q, q ∈ t'.registers -> IsEnviron q ->
      exists v, v ∈ env ∧ v.register = q := by
    intro q hq h
    rcases List.mem_append.mp (hperm.mem_iff.mp hq) with hq | hq
    · rcases List.mem_map.mp hq with ⟨v, hv, heq⟩
      exact ⟨v, hv, heq⟩
    · exact absurd h (hnone q hq)
  have hexport : Exportable t'.registers := by
    intro q hq h
    rcases hmem q hq h with ⟨v, hv, rfl⟩
    exact (henv.valid v hv).noNull
  have hfilter : (t'.registers.filter isEnviron).Perm
      (env.map Variable.register) := by
    refine (hperm.filter isEnviron).trans ?_
    have hall : (env.map Variable.register).filter isEnviron =
        env.map Variable.register := by
      refine List.filter_eq_self.mpr ?_
      intro q hq
      rcases List.mem_map.mp hq with ⟨v, hv, rfl⟩
      exact decide_eq_true
        (isEnviron_iff.mpr (henv.valid v hv).environName)
    have hno : t.registers.filter isEnviron = [] := by
      refine List.filter_eq_nil_iff.mpr ?_
      intro q hq h
      exact hnone q hq (of_decide_eq_true h)
    rw [List.filter_append, hall, hno, List.append_nil]
  refine ⟨t', _, hset, getEnviron_ok hexport, ?_⟩
  refine (hfilter.map Register.entry).trans ?_
  rw [List.map_map]
  exact List.Perm.refl _

theorem entry_inj {q r : Register} (hq : IsEnviron q) (hr : IsEnviron r)
    (h : q.entry = r.entry) : q.name = r.name := by
  have hname := isEnviron_iff.mp hq
  have hname' := isEnviron_iff.mp hr
  rcases cons_of_dollar (beq_iff_eq.mp hq.1) with ⟨rest, hrest⟩
  rcases cons_of_dollar (beq_iff_eq.mp hr.1) with ⟨rest', hrest'⟩
  have hequals := hname.noEquals
  have hequals' := hname'.noEquals
  have hnull := hname.noNull
  have hnull' := hname'.noNull
  unfold Register.entry environEntry at h
  rw [hrest] at hequals hnull h
  rw [hrest'] at hequals' hnull' h
  have hindex := strchr_behind (fun h => hequals (List.mem_cons_of_mem _ h))
    (fun h => hnull (List.mem_cons_of_mem _ h)) q.string
  have hindex' := strchr_behind (fun h => hequals' (List.mem_cons_of_mem _ h))
    (fun h => hnull' (List.mem_cons_of_mem _ h)) r.string
  change rest ++ _ = rest' ++ _ at h
  rw [h, hindex'] at hindex
  have htake : rest = rest' :=
    (List.append_inj h (Option.some.inj hindex).symm).1
  rw [hrest, hrest', htake]

theorem nodup_entries (t : Table) :
    ((t.registers.filter isEnviron).map Register.entry).Nodup := by
  refine List.pairwise_map.mpr ?_
  refine (t.ordered.filter isEnviron).imp_of_mem ?_
  intro q r hq hr hlt heq
  have hname := entry_inj (of_decide_eq_true (List.mem_filter.mp hq).2)
    (of_decide_eq_true (List.mem_filter.mp hr).2) heq
  rw [hname, stringCmp_self] at hlt
  exact absurd hlt (Int.lt_irrefl 0)

theorem exportable_iff {t : Table} :
    Exportable t.registers <-> ¬ exists q, q ∈ t.registers ∧
      EnvironName q.name ∧ exists value,
        q.getString externals = .ok value ∧ 0 ∈ value := by
  constructor
  · rintro h ⟨q, hq, hname, value, hget, hnull⟩
    have henv := isEnviron_iff.mpr hname
    rw [getString_isEnviron henv] at hget
    cases hget
    exact h q hq henv hnull
  · intro h q hq henv hnull
    exact h ⟨q, hq, isEnviron_iff.mp henv, _, getString_isEnviron henv, hnull⟩

/-- The entries of the environment registers, each of them once, unless a
value contains a null. -/
theorem getEnviron_cases (t : Table) :
    ((exists e, getEnviron externals t = .error (.error e)) <->
      exists q, q ∈ t.registers ∧ EnvironName q.name ∧ exists value,
        q.getString externals = .ok value ∧ 0 ∈ value) ∧
    ((exists e, getEnviron externals t = .error (.error e)) ∨
      exists envp, getEnviron externals t = .ok envp ∧ envp.Nodup ∧
        forall entry, entry ∈ envp <->
          exists q, q ∈ t.registers ∧ EnvironName q.name ∧ exists value,
            q.getString externals = .ok value ∧
              entry = environEntry q.name value) := by
  by_cases hexport : Exportable t.registers
  · have hok := @getEnviron_ok externals t hexport
    constructor
    · constructor
      · rintro ⟨e, he⟩
        rw [hok] at he
        cases he
      · intro h
        exact absurd h (exportable_iff.mp hexport)
    · refine .inr ⟨_, hok, nodup_entries t, ?_⟩
      intro entry
      constructor
      · intro h
        rcases List.mem_map.mp h with ⟨q, hq, rfl⟩
        rcases List.mem_filter.mp hq with ⟨hq, henv⟩
        have henv := of_decide_eq_true henv
        exact ⟨q, hq, isEnviron_iff.mp henv, _, getString_isEnviron henv, rfl⟩
      · rintro ⟨q, hq, hname, value, hget, rfl⟩
        have henv := isEnviron_iff.mpr hname
        rw [getString_isEnviron henv] at hget
        cases hget
        exact List.mem_map_of_mem
          (List.mem_filter.mpr ⟨hq, decide_eq_true henv⟩)
  · have herror := @getEnviron_error externals t hexport
    refine ⟨⟨fun _ => ?_, fun _ => herror⟩, .inl herror⟩
    exact Classical.not_not.mp (fun h => hexport (exportable_iff.mpr h))

/-- The export of an imported environment is that environment.  The export of
any table has its environment registers. -/
theorem environ_inverse (externals : Externals)
    (balance : SearchTree.Rebalancing Register) (t : Table) :
    (forall env : List Variable, IsEnvironment env ->
      (forall q, q ∈ t.registers ->
        q.name.head? = some '$'.toUInt8 -> q.name = ['$'.toUInt8]) ->
      exists t' envp,
        setEnviron externals balance (env.map Variable.line) t = .ok t' ∧
          getEnviron externals t' = .ok envp ∧
          envp.Perm (env.map Variable.line)) ∧
    ((exists e, getEnviron externals t = .error (.error e)) <->
      exists q, q ∈ t.registers ∧ EnvironName q.name ∧ exists value,
        q.getString externals = .ok value ∧ 0 ∈ value) ∧
    ((exists e, getEnviron externals t = .error (.error e)) ∨
      exists envp, getEnviron externals t = .ok envp ∧ envp.Nodup ∧
        forall entry, entry ∈ envp <->
          exists q, q ∈ t.registers ∧ EnvironName q.name ∧ exists value,
            q.getString externals = .ok value ∧
              entry = environEntry q.name value) :=
  ⟨fun _ henv hothers => getEnviron_setEnviron henv hothers,
    (getEnviron_cases t).1, (getEnviron_cases t).2⟩

/-- Externals without a string. -/
def noExternals : Externals where
  getString := fun _ => .ok []
  setString := fun _ _ => .ok ()

/-- A table with the working directory only. -/
def directoryTable : Table where
  tree := .node .leaf (.external .workingDir) .leaf
  ordered := List.pairwise_singleton _ _

/-- Two variables `B=1` and `A=`. -/
theorem environ_inverse_two :
    exists t' envp,
      setEnviron noExternals .none [[0x42, 0x3D, 0x31], [0x41, 0x3D]]
          directoryTable = .ok t' ∧
        getEnviron noExternals t' = .ok envp ∧
        envp.Perm [[0x42, 0x3D, 0x31], [0x41, 0x3D]] := by
  have henv : IsEnvironment [([0x42], [0x31]), ([0x41], [])] := by
    refine ⟨?_, by decide⟩
    intro v hv
    rcases List.mem_cons.mp hv with rfl | hv
    · exact ⟨by decide, by decide, by decide, by decide⟩
    · rw [List.mem_singleton.mp hv]
      exact ⟨by decide, by decide, by decide, by decide⟩
  refine (environ_inverse noExternals .none directoryTable).1 _ henv ?_
  intro q hq _
  rw [List.mem_singleton.mp hq]
  rfl

end QRegTable
end SciTECO
